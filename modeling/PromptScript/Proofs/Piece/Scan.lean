import PromptScript.Piece

/-!
# Scans of texts in a row

A scan looks one character ahead at most, so it can be cut wherever a mark stands that begins a
piece of its own. What a scan leaves after some of its pieces is again a scan, and the kind of a
piece says which characters it holds.
-/

namespace PromptScript.Piece

/-- The characters of pieces in a row. -/
def join (ps : List Piece) : Text :=
  ps.flatMap (·.text)

@[simp] theorem join_nil : join [] = [] := rfl

@[simp] theorem join_cons (p : Piece) (ps : List Piece) : join (p :: ps) = p.text ++ join ps := rfl

/-- The characters of pieces in a row are those of the one part and then those of the other. -/
@[simp] theorem join_append (ps qs : List Piece) : join (ps ++ qs) = join ps ++ join qs :=
  List.flatMap_append

/-- The pieces of a text hold its characters in their order. -/
@[simp] theorem join_scan (t : Text) : join (scan t) = t :=
  flatMap_text_scan t

@[simp] theorem scan_nil : scan [] = [] := by
  rw [scan]

/-- A scan gives the first piece of a text and scans what is left. -/
theorem scan_cons (c : Char) (rest : Text) :
    scan (c :: rest) = (first c rest).1 :: scan (first c rest).2 := by
  rw [scan]

/-- Only the empty text has no pieces. -/
theorem scan_eq_nil_iff {t : Text} : scan t = [] ↔ t = [] := by
  constructor
  · intro h
    have hjoin := join_scan t
    rw [h] at hjoin
    exact hjoin.symm
  · rintro rfl
    exact scan_nil

/-- What a scan leaves after some of its pieces is the scan of the text that is left. -/
theorem eq_append_of_scan {t : Text} {ps qs : List Piece} (h : scan t = ps ++ qs) :
    t = join ps ++ join qs ∧ qs = scan (join qs) := by
  refine ⟨by rw [← join_append, ← h, join_scan], ?_⟩
  induction ps generalizing t with
  | nil =>
    have hjoin := join_scan t
    rw [h, List.nil_append] at hjoin
    rw [hjoin]
    exact h.symm
  | cons p ps ih =>
    cases t with
    | nil => simp at h
    | cons c rest =>
      rw [scan_cons, List.cons_append] at h
      exact ih (List.cons.inj h).2

/-- Horizontal white space is white space. -/
theorem isBlank_of_isHorizontal {space : Text} (h : space.all isHorizontal = true) :
    Text.isBlank space = true :=
  List.all_eq_true.mpr fun c hc => (Bool.and_eq_true_iff.mp (List.all_eq_true.mp h c hc)).1

/-- Horizontal white space stays within a line. -/
theorem not_mem_newline_of_isHorizontal {space : Text} (h : space.all isHorizontal = true) :
    '\n' ∉ space :=
  fun hmem => absurd (List.all_eq_true.mp h _ hmem) (by decide)

/-- The marks that always begin a piece: line breaks, braces, quotes, at signs and number signs. -/
def marks : List Char :=
  ['\n', '{', '}', '"', '@', '#']

/-- A mark is no white space, but for the line break, which is not horizontal. -/
theorem not_isHorizontal_of_mem_marks {c : Char} (h : c ∈ marks) : isHorizontal c = false := by
  have hall : marks.all (!isHorizontal ·) = true := by decide
  simpa using List.all_eq_true.mp hall c h

/-- A mark is no part of the name of a reference. -/
theorem not_isName_of_mem_marks {c : Char} (h : c ∈ marks) : Text.isName c = false := by
  have hall : marks.all (!Text.isName ·) = true := by decide
  simpa using List.all_eq_true.mp hall c h

/-- A mark is no part of a word. -/
theorem not_isWord_of_mem_marks {c : Char} (h : c ∈ marks) : Text.isWord c = false := by
  have hall : marks.all (!Text.isWord ·) = true := by decide
  simpa using List.all_eq_true.mp hall c h

/-- A keyword right before a mark is not hidden by it. -/
theorem not_masksKeyword_of_mem_marks {c : Char} (h : c ∈ marks) : masksKeyword c = false := by
  have hall : marks.all (!masksKeyword ·) = true := by decide
  simpa using List.all_eq_true.mp hall c h

/-- A run ends at the first character that is not of its class, whatever comes after. -/
theorem takeWhile_append_cons {p : Char → Bool} {c : Char} (hc : p c = false) (a b : Text) :
    (a ++ c :: b).takeWhile p = a.takeWhile p := by
  induction a with
  | nil => simp [hc]
  | cons x a ih => simp only [List.cons_append, List.takeWhile_cons, ih]

/-- Dropping a run stops at the first character that is not of its class. -/
theorem dropWhile_append_cons {p : Char → Bool} {c : Char} (hc : p c = false) (a b : Text) :
    (a ++ c :: b).dropWhile p = a.dropWhile p ++ c :: b := by
  induction a with
  | nil => simp [hc]
  | cons x a ih =>
    simp only [List.cons_append, List.dropWhile_cons, ih]
    split <;> rfl

/-- Text that goes on with a character which masks no keyword has words of the same kind. -/
theorem wordKind_append_cons {c : Char} (hc : masksKeyword c = false) (run a b : Text) :
    wordKind run (a ++ c :: b) = wordKind run a := by
  cases a with
  | nil => simp [wordKind, hc]
  | cons x a => rfl

/-- A piece does not grow past a mark. -/
theorem first_append_mark {c : Char} (hc : c ∈ marks) (x : Char) (a b : Text) :
    first x (a ++ c :: b) = ((first x a).1, (first x a).2 ++ c :: b) := by
  have hspace := not_isHorizontal_of_mem_marks hc
  have hname := not_isName_of_mem_marks hc
  have hword := not_isWord_of_mem_marks hc
  have hmask := not_masksKeyword_of_mem_marks hc
  simp only [first, takeWhile_append_cons hspace, dropWhile_append_cons hspace,
    takeWhile_append_cons hname, dropWhile_append_cons hname, takeWhile_append_cons hword,
    dropWhile_append_cons hword, wordKind_append_cons hmask]
  repeat' split
  all_goals rfl

/-- A scan can be cut before a mark. -/
theorem scan_append_mark {c : Char} (hc : c ∈ marks) (a b : Text) :
    scan (a ++ c :: b) = scan a ++ scan (c :: b) := by
  fun_induction scan a with
  | case1 => rfl
  | case2 x a ih =>
    rw [List.cons_append, scan_cons, first_append_mark hc, ih, List.cons_append]

/-- The piece of a line break. -/
def lineBreak : Piece :=
  ⟨.newline, ['\n']⟩

/-- A line break is a piece of its own. -/
theorem scan_newline (rest : Text) : scan ('\n' :: rest) = lineBreak :: scan rest := by
  rw [scan_cons]
  rfl

/-- An opening brace is a piece of its own. -/
theorem scan_leftBrace (rest : Text) : scan ('{' :: rest) = ⟨.leftBrace, ['{']⟩ :: scan rest := by
  rw [scan_cons]
  rfl

/-- A closing brace is a piece of its own. -/
theorem scan_rightBrace (rest : Text) : scan ('}' :: rest) = ⟨.rightBrace, ['}']⟩ :: scan rest := by
  rw [scan_cons]
  rfl

/-- A double quote is a piece of its own. -/
theorem scan_quote (rest : Text) : scan ('"' :: rest) = ⟨.quote, ['"']⟩ :: scan rest := by
  rw [scan_cons]
  rfl

/-- A colon that a piece begins with is all of it. -/
theorem scan_colon (rest : Text) : scan (':' :: rest) = ⟨.punct, [':']⟩ :: scan rest := by
  rw [scan_cons]
  rfl

/-- A scan can be cut at a line break. -/
theorem scan_append_newline (a b : Text) :
    scan (a ++ '\n' :: b) = scan a ++ lineBreak :: scan b := by
  rw [scan_append_mark (by decide), scan_newline]

/-- Whether a text does not begin with a character of a class. -/
def stops (p : Char → Bool) (t : Text) : Bool :=
  !t.head?.any p

/-- A run of a class is taken whole where the text after it does not go on with it. -/
theorem takeWhile_append_of_stops {p : Char → Bool} {run rest : Text} (hrun : run.all p = true)
    (hrest : stops p rest = true) : (run ++ rest).takeWhile p = run := by
  rw [List.takeWhile_append_of_pos (List.all_eq_true.mp hrun)]
  cases rest with
  | nil => simp
  | cons c rest =>
    have hc : p c = false := by simpa [stops] using hrest
    simp [hc]

/-- A run of a class is dropped whole where the text after it does not go on with it. -/
theorem dropWhile_append_of_stops {p : Char → Bool} {run rest : Text} (hrun : run.all p = true)
    (hrest : stops p rest = true) : (run ++ rest).dropWhile p = rest := by
  rw [List.dropWhile_append_of_pos (List.all_eq_true.mp hrun)]
  cases rest with
  | nil => simp
  | cons c rest =>
    have hc : p c = false := by simpa [stops] using hrest
    simp [hc]

/-- What is left after a run does not go on with it. -/
theorem stops_dropWhile (p : Char → Bool) (t : Text) : stops p (t.dropWhile p) = true := by
  induction t with
  | nil => rfl
  | cons c t ih =>
    rw [List.dropWhile_cons]
    split
    · exact ih
    · rename_i hc
      simp [stops, Bool.eq_false_iff.mpr hc]

/-- A run of horizontal white space is one piece. -/
theorem scan_space {space rest : Text} (hne : space ≠ []) (hspace : space.all isHorizontal = true)
    (hrest : stops isHorizontal rest = true) :
    scan (space ++ rest) = ⟨.space, space⟩ :: scan rest := by
  cases space with
  | nil => exact absurd rfl hne
  | cons c space =>
    obtain ⟨hc, hall⟩ := by simpa only [List.all_cons, Bool.and_eq_true] using hspace
    have hsplit : Text.isSpace c = true ∧ c ≠ '\n' := by simpa [isHorizontal] using hc
    rw [List.cons_append, scan_cons, first, if_neg hsplit.2, if_pos hsplit.1,
      takeWhile_append_of_stops hall hrest, dropWhile_append_of_stops hall hrest]

/-- An at sign and the name glued to it are one piece. -/
theorem scan_at {name rest : Text} (hname : name.all Text.isName = true)
    (hrest : stops Text.isName rest = true) :
    scan ('@' :: (name ++ rest)) = ⟨.at, '@' :: name⟩ :: scan rest := by
  rw [scan_cons, first, if_neg (by decide), if_neg (by decide), if_pos rfl,
    takeWhile_append_of_stops hname hrest, dropWhile_append_of_stops hname hrest]

/-- A run of word characters is one piece. -/
theorem scan_word {c : Char} {run rest : Text} (hstart : c ≠ '\n' ∧ Text.isSpace c = false ∧ c ≠ '@')
    (hrun : (c :: run).all Text.isWord = true) (hrest : stops Text.isWord rest = true) :
    scan (c :: (run ++ rest)) = ⟨wordKind (c :: run) rest, c :: run⟩ :: scan rest := by
  obtain ⟨hc, hall⟩ := by simpa only [List.all_cons, Bool.and_eq_true] using hrun
  rw [scan_cons, first, if_neg hstart.1, if_neg (by simp [hstart.2.1]), if_neg hstart.2.2, if_pos hc]
  simp only [takeWhile_append_of_stops hall hrest, dropWhile_append_of_stops hall hrest]

end PromptScript.Piece
