import PromptScript.Proofs.Composition.Seam
import PromptScript.Proofs.Parsing.LineStart
import PromptScript.Proofs.RoundTrip.Quiet

/-!
# Walks over a script

The lexer walks over a script from phrase to phrase. Between two phrases no brace is open, and if
only white space was seen on the line, then a line begins there or an indent ends there. Inside a
phrase a line begins only in the body of a reference.
-/

namespace PromptScript

open Piece (scan isHorizontal)

namespace Token

/-- How many braces tokens open. -/
def openings (tokens : List Token) : Nat :=
  tokens.countP (·.kind == .braceOpen)

/-- How many braces tokens close. -/
def closings (tokens : List Token) : Nat :=
  tokens.countP (·.kind == .braceClose)

/-- Whether tokens lead into the body of a reference: they open more braces than they close. -/
def InBody (tokens : List Token) : Prop :=
  closings tokens < openings tokens

instance (tokens : List Token) : Decidable (InBody tokens) :=
  inferInstanceAs (Decidable (_ < _))

/-- Whether tokens close as many braces as they open. -/
def IsBalanced (tokens : List Token) : Prop :=
  closings tokens = openings tokens

variable {t : Token} {ts us : List Token}

/-- Tokens in a row open together what each of them opens. -/
@[simp] theorem openings_append (ts us : List Token) :
    openings (ts ++ us) = openings ts + openings us :=
  List.countP_append

/-- Tokens in a row close together what each of them closes. -/
@[simp] theorem closings_append (ts us : List Token) :
    closings (ts ++ us) = closings ts + closings us :=
  List.countP_append

/-- A token opens a brace if it is one that does. -/
@[simp] theorem openings_cons (t : Token) (ts : List Token) :
    openings (t :: ts) = openings ts + if t.kind = .braceOpen then 1 else 0 := by
  simp [openings, List.countP_cons]

/-- A token closes a brace if it is one that does. -/
@[simp] theorem closings_cons (t : Token) (ts : List Token) :
    closings (t :: ts) = closings ts + if t.kind = .braceClose then 1 else 0 := by
  simp [closings, List.countP_cons]

@[simp] theorem openings_nil : openings [] = 0 := rfl

@[simp] theorem closings_nil : closings [] = 0 := rfl

/-- Tokens that are no braces are balanced. -/
theorem isBalanced_of_forall (h : ∀ t ∈ ts, t.kind ≠ .braceOpen ∧ t.kind ≠ .braceClose) :
    IsBalanced ts := by
  have hopen : openings ts = 0 := List.countP_eq_zero.mpr fun t ht => by simp [(h t ht).1]
  have hclose : closings ts = 0 := List.countP_eq_zero.mpr fun t ht => by simp [(h t ht).2]
  rw [IsBalanced, hopen, hclose]

/-- Balanced tokens in a row are balanced. -/
theorem IsBalanced.append (hts : IsBalanced ts) (hus : IsBalanced us) : IsBalanced (ts ++ us) := by
  simp only [IsBalanced, closings_append, openings_append] at *
  omega

/-- Balanced tokens lead out of every body that they lead into. -/
theorem IsBalanced.not_inBody (h : IsBalanced ts) : ¬InBody ts :=
  Nat.not_lt.mpr (Nat.le_of_eq h.symm)

/-- Balanced tokens in front do not change whether one is in a body. -/
theorem IsBalanced.inBody_append_iff (h : IsBalanced ts) : InBody (ts ++ us) ↔ InBody us := by
  simp only [IsBalanced, InBody, closings_append, openings_append] at *
  omega

/-- A body closes the braces it opens and those it stands in. -/
theorem Body.closings_eq {depth : Nat} (h : Body depth ts) :
    closings ts = openings ts + depth := by
  induction h with
  | close ht => simp [ht]
  | leave ht _ ih | enter ht _ ih =>
    simp only [closings_cons, openings_cons, ht, ih, reduceCtorEq, if_true, if_false]
    omega
  | text ht _ ih => simp [ht, ih]

/-- Before the last brace of a body a brace is open. -/
theorem Body.closings_lt {depth : Nat} (h : Body depth (ts ++ us)) (hdepth : 1 ≤ depth)
    (hus : us ≠ []) : closings ts < openings ts + depth := by
  generalize hall : ts ++ us = all at h
  induction h generalizing ts with
  | close ht =>
    cases ts with
    | nil => simp
    | cons x ts => exact absurd (List.append_eq_nil_iff.mp (List.cons.inj hall).2).2 hus
  | leave ht _ ih | enter ht _ ih | text ht _ ih =>
    cases ts with
    | nil => exact Nat.lt_add_left _ hdepth
    | cons x ts =>
      obtain ⟨rfl, hrest⟩ := List.cons.inj hall
      have hlt := ih (by omega) hrest
      simp only [closings_cons, openings_cons, ht, reduceCtorEq, if_true, if_false]
      omega

/-- What follows a name and a target is balanced. -/
theorem Tail.isBalanced (h : Tail ts) : IsBalanced ts := by
  cases h with
  | none => rfl
  | error ht => simp [IsBalanced, ht]
  | braced ht hbody => simp [IsBalanced, ht, hbody.closings_eq]

/-- Text past a name and a target stands in a body. -/
theorem Tail.inBody (h : Tail (ts ++ t :: us)) (ht : t.kind = .text) : InBody ts := by
  generalize hall : ts ++ t :: us = all at h
  cases h with
  | none => exact absurd hall (by simp)
  | error herror =>
    obtain ⟨rfl, hnil⟩ | ⟨rest, -, hnil⟩ := List.append_eq_cons_iff.mp hall
    · obtain ⟨rfl, -⟩ := List.cons.inj hnil
      rw [herror] at ht
      cases ht
    · exact absurd hnil (by simp)
  | braced hopen hbody =>
    obtain ⟨rfl, heq⟩ | ⟨inner, rfl, rfl⟩ := List.append_eq_cons_iff.mp hall
    · obtain ⟨rfl, -⟩ := List.cons.inj heq
      rw [hopen] at ht
      cases ht
    · have hlt := hbody.closings_lt (Nat.le_refl 1) (List.cons_ne_nil t us)
      simpa [InBody, hopen] using hlt

/-- Whether a token is of the start, the name or the target of a reference. -/
def IsHead (t : Token) : Prop :=
  t.kind = .referenceStart ∨ t.kind = .identifier ∨ t.kind = .target

/-- The tokens in front of a body have no braces. -/
theorem isBalanced_of_isHead (h : ∀ t ∈ ts, t.IsHead) : IsBalanced ts :=
  isBalanced_of_forall fun t ht => by
    rcases h t ht with hkind | hkind | hkind <;> simp [hkind]

end Token

/-- Blank text without a line break before its end and at its end is horizontal white space. -/
theorem isHorizontal_of_isBlank {text : Text} (hblank : Text.isBlank text = true)
    (hline : '\n' ∉ text.dropLast) (hends : ¬Text.endsLine text = true) :
    text.all isHorizontal = true := by
  refine List.all_eq_true.mpr fun c hc => ?_
  have hspace := List.all_eq_true.mp hblank c hc
  have hbreak : c ≠ '\n' := by
    rintro rfl
    obtain ⟨init, d, rfl⟩ := (List.eq_nil_or_concat' text).resolve_left (List.ne_nil_of_mem hc)
    rw [List.dropLast_concat] at hline
    obtain rfl := List.mem_singleton.mp ((List.mem_append.mp hc).resolve_left hline)
    exact hends (by simp [Text.endsLine])
  simpa [isHorizontal, hbreak] using hspace

/-- Whether a stretch stays within a line: a line break can only be its last character. -/
def Stretch.IsWithinLine (s : Stretch) : Prop :=
  s.text ≠ [] ∧ '\n' ∉ s.text.dropLast

/-- Whether a stretch stays within a line and ends it only if it is of text. -/
def Stretch.IsFragment (s : Stretch) : Prop :=
  s.IsWithinLine ∧ (Text.endsLine s.text = true → ∃ text, s = .token .text text)

namespace Stretch

variable {s : Stretch} {ss : List Stretch}

/-- A stretch without a line break is within a line. -/
theorem isFragment_of_not_mem (hne : s.text ≠ []) (h : '\n' ∉ s.text) : s.IsFragment :=
  ⟨⟨hne, fun hmem => h (List.dropLast_subset _ hmem)⟩, fun hends =>
    absurd (List.mem_of_getLast? (eq_of_beq hends)) h⟩

/-- The token of a text without a line break stays within the line. -/
theorem isFragment_ofText {kind : Token.Kind} {text : Text} (h : '\n' ∉ text) :
    ∀ s ∈ ofText kind text, s.IsFragment := by
  cases text with
  | nil => simp [ofText]
  | cons c text => exact List.forall_mem_singleton.mpr (isFragment_of_not_mem (List.cons_ne_nil _ _) h)

/-- White space that is kept as text stays within the line. -/
theorem isFragment_ofGap {space : Text} (h : '\n' ∉ space) : ∀ s ∈ ofGap space, s.IsFragment := by
  cases space with
  | nil => simp [ofGap]
  | cons c space => exact List.forall_mem_singleton.mpr (isFragment_of_not_mem (List.cons_ne_nil _ _) h)

/-- Stretches within lines can be cut where a line begins. -/
theorem exists_append_of_join {front rest : Text} (hwithin : ∀ s ∈ ss, s.IsWithinLine)
    (hjoin : join ss = front ++ rest) (hfront : front = [] ∨ Text.endsLine front = true) :
    ∃ x y, ss = x ++ y ∧ join x = front := by
  induction ss generalizing front with
  | nil =>
    have hnil : front = [] := (List.append_eq_nil_iff.mp hjoin.symm).1
    exact ⟨[], [], rfl, hnil.symm⟩
  | cons s ss ih =>
    rcases hfront with rfl | hends
    · exact ⟨[], s :: ss, rfl, rfl⟩
    · obtain ⟨hs, hss⟩ := List.forall_mem_cons.mp hwithin
      obtain ⟨more, rfl, hmore⟩ := Text.exists_of_append_eq hjoin (eq_of_beq hends) hs.2
      have hmoreEnds : more = [] ∨ Text.endsLine more = true := by
        by_cases hne : more = []
        · exact Or.inl hne
        · exact Or.inr (by rwa [Text.endsLine_append hne] at hends)
      obtain ⟨x, y, rfl, rfl⟩ := ih hss hmore hmoreEnds
      exact ⟨s :: x, y, rfl, rfl⟩

/-- Stretches that are not empty are cut in one place by their text. -/
theorem append_inj_of_join {xs ys zs ws : List Stretch} (h : xs ++ ys = zs ++ ws)
    (hjoin : join xs = join zs) (hwithin : ∀ s ∈ xs ++ ys, s.IsWithinLine) :
    xs = zs ∧ ys = ws := by
  have hnil {ts : List Stretch} (hts : ∀ s ∈ ts, s.IsWithinLine) (hempty : join ts = []) :
      ts = [] := by
    cases ts with
    | nil => rfl
    | cons t ts => exact absurd (List.append_eq_nil_iff.mp hempty).1 (hts t List.mem_cons_self).1
  rcases List.append_eq_append_iff.mp h with ⟨left, rfl, rfl⟩ | ⟨left, rfl, rfl⟩
  · rw [join_append, List.self_eq_append_right] at hjoin
    obtain rfl := hnil (fun s hs => hwithin s (by simp [hs])) hjoin
    simp
  · rw [join_append, List.append_right_eq_self] at hjoin
    obtain rfl := hnil (fun s hs => hwithin s (by simp [hs])) hjoin
    simp

end Stretch

namespace Lexer

open Stretch (IsFragment isFragment_of_not_mem)

variable {lineStart ls : Bool} {before : Option Char} {rest after : Text} {s : Stretch} {ss x y : List Stretch}

/-- The stretches of a body end a line only with text. -/
theorem Body.isFragment {depth : Nat} (h : Body depth rest ss after) : ∀ s ∈ ss, s.IsFragment := by
  have hbrace {kind : Token.Kind} {c : Char} (hc : c ≠ '\n') : (Stretch.token kind [c]).IsFragment :=
    isFragment_of_not_mem (List.cons_ne_nil c []) (by simpa [Stretch.text] using hc.symm)
  induction h with
  | close => exact List.forall_mem_singleton.mpr (hbrace (by decide))
  | leave _ _ ih | enter _ ih => exact List.forall_mem_cons.mpr ⟨hbrace (by decide), ih⟩
  | @fragment depth rest text mid after ss hne hcut _ ih =>
    have hline := Text.not_mem_dropLast_cutBody rest
    rw [hcut] at hline
    exact List.forall_mem_cons.mpr ⟨⟨⟨hne, hline⟩, fun _ => ⟨text, rfl⟩⟩, ih⟩

/-- The stretches past a target end a line only with text. -/
theorem Tail.isFragment {body : Option Text} (h : Tail rest ss body after) :
    ∀ s ∈ ss, s.IsFragment := by
  have hbrace {kind : Token.Kind} : (Stretch.token kind ['{']).IsFragment :=
    isFragment_of_not_mem (List.cons_ne_nil _ _) (by simp [Stretch.text])
  have hgap {space : Text} (hspace : space.all isHorizontal = true) :
      ∀ s ∈ Stretch.ofGap space, s.IsFragment :=
    Stretch.isFragment_ofGap (Piece.not_mem_newline_of_isHorizontal hspace)
  cases h with
  | bare => simp
  | unclosed hspace =>
    exact List.forall_mem_append.mpr ⟨hgap hspace, List.forall_mem_singleton.mpr hbrace⟩
  | braced hspace hbody _ =>
    exact List.forall_mem_append.mpr ⟨hgap hspace, List.forall_mem_cons.mpr ⟨hbrace, hbody.isFragment⟩⟩

/-- The stretches past a name end a line only with text. -/
theorem Attachment.isFragment {colon : Bool} {target body : Option Text}
    (h : Attachment colon rest ss target body after) : ∀ s ∈ ss, s.IsFragment := by
  cases h with
  | target hcut htail =>
    obtain ⟨q, rfl, -, hline⟩ := Text.cutQuote?_eq_some hcut
    refine List.forall_mem_cons.mpr ⟨isFragment_of_not_mem (List.cons_ne_nil _ _) ?_, htail.isFragment⟩
    simpa [Stretch.text] using hline
  | unclosed =>
    exact List.forall_mem_singleton.mpr (isFragment_of_not_mem (List.cons_ne_nil _ _) (by decide))
  | plain _ htail => exact htail.isFragment

/-- A phrase is fragments of lines, or a comment. -/
theorem Phrase.isFragment (h : Phrase lineStart before rest ss ls after) :
    (∀ s ∈ ss, s.IsFragment) ∨ ss = [.comment (Text.cutLine rest).1] := by
  cases h with
  | comment => exact Or.inr rfl
  | indent hne hspace =>
    have hline := Piece.not_mem_newline_of_isHorizontal hspace
    exact Or.inl (List.forall_mem_singleton.mpr (isFragment_of_not_mem hne hline))
  | header h =>
    have hne := ne_nil_of_taken (header?_append_eq h) (length_header?_lt h)
    exact Or.inl (List.forall_mem_singleton.mpr (isFragment_of_not_mem hne (not_mem_of_header? h)))
  | @statement _ _ text mid h =>
    have hne := ne_nil_of_taken (statement?_append_eq h) (length_statement?_lt h)
    refine Or.inl (List.forall_mem_cons.mpr
      ⟨isFragment_of_not_mem hne (not_mem_of_statement? h), ?_⟩)
    unfold Stretch.ofText
    split
    · simp
    · rename_i hline
      exact List.forall_mem_singleton.mpr
        ⟨⟨mt List.isEmpty_iff.mpr hline, Text.not_mem_dropLast_cutLine mid⟩, fun _ => ⟨_, rfl⟩⟩
  | reference hname _ _ h =>
    refine Or.inl (List.forall_mem_cons.mpr
      ⟨isFragment_of_not_mem (List.cons_ne_nil _ _) (by decide), ?_⟩)
    exact List.forall_mem_append.mpr
      ⟨Stretch.isFragment_ofText (Text.not_mem_of_isName hname), h.isFragment⟩
  | @text _ _ rest text _ hne hline hstart h =>
    have hjoin := (Phrase.text hne hline hstart h).join_ne_nil
    rw [Stretch.join_cons, Stretch.join_nil, List.append_nil] at hjoin
    have hbreak := not_mem_dropLast_splitText before
      fun p (hp : p ∈ scan rest) => Piece.sound_of_mem_scan hp
    rw [h] at hbreak
    exact Or.inl (List.forall_mem_singleton.mpr ⟨⟨hjoin, hbreak⟩, fun _ => ⟨_, rfl⟩⟩)

/-- The stretches of a phrase stay within lines. -/
theorem Phrase.isWithinLine (h : Phrase lineStart before rest ss ls after) :
    ∀ s ∈ ss, s.IsWithinLine := by
  rcases h.isFragment with hall | rfl
  · exact fun s hs => (hall s hs).1
  · have hne := h.join_ne_nil
    rw [Stretch.join_cons, Stretch.join_nil, List.append_nil] at hne
    exact List.forall_mem_singleton.mpr ⟨hne, Text.not_mem_dropLast_cutLine rest⟩

/-- No stretch of a script goes past the end of a line. -/
theorem Phrases.isWithinLine (h : Phrases lineStart before rest ss) : ∀ s ∈ ss, s.IsWithinLine := by
  induction h with
  | nil => simp
  | cons h _ ih => exact List.forall_mem_append.mpr ⟨h.isWithinLine, ih⟩

/-- The tokens of a reference are those of its start, its name and its target, and what follows. -/
theorem Attachment.exists_head {colon : Bool} {target body : Option Text}
    (h : Attachment colon rest ss target body after) (name : Text) (p : Position) :
    ∃ head tail, (∀ t ∈ head, t.IsHead) ∧ Token.Tail tail ∧
      Stretch.tokens p (.token .referenceStart ['@'] :: (Stretch.ofText .identifier name ++ ss)) =
        head ++ tail := by
  obtain ⟨quoted, tail, hquoted, htail, htokens⟩ := h.grammar ((p.advance ['@']).advance name)
  have hstart : Token.IsHead ⟨.referenceStart, ['@'], p⟩ := Or.inl rfl
  have htarget : ∀ t ∈ quoted.toList, t.IsHead := fun t ht =>
    Or.inr (Or.inr (hquoted t (by simpa using ht)))
  cases name with
  | nil =>
    refine ⟨_ :: quoted.toList, tail, List.forall_mem_cons.mpr ⟨hstart, htarget⟩, htail, ?_⟩
    exact congrArg (_ :: ·) htokens
  | cons c name =>
    have hname : Token.IsHead ⟨.identifier, c :: name, p.advance ['@']⟩ := Or.inr (Or.inl rfl)
    refine ⟨_ :: _ :: quoted.toList, tail,
      List.forall_mem_cons.mpr ⟨hstart, List.forall_mem_cons.mpr ⟨hname, htarget⟩⟩, htail, ?_⟩
    exact congrArg (fun ts => _ :: _ :: ts) htokens

/-- Text among the stretches of a reference stands in its body. -/
theorem Attachment.inBody {colon : Bool} {target body : Option Text} {name text : Text}
    (h : Attachment colon rest ss target body after)
    (hss : .token .referenceStart ['@'] :: (Stretch.ofText .identifier name ++ ss) =
      x ++ .token .text text :: y) (p : Position) : Token.InBody (Stretch.tokens p x) := by
  obtain ⟨head, tail, hhead, htail, htokens⟩ := h.exists_head name p
  rw [hss, Stretch.tokens_append, Stretch.tokens] at htokens
  rcases List.append_eq_append_iff.mp htokens with ⟨more, rfl, hmore⟩ | ⟨more, hx, rfl⟩
  · cases more with
    | nil =>
      rw [List.nil_append] at hmore
      rw [List.append_nil] at hhead
      rw [← hmore] at htail
      have hnone : Token.InBody [] := htail.inBody rfl
      exact absurd hnone (by decide)
    | cons t more =>
      rw [← (List.cons.inj hmore).1] at hhead
      have hkind := hhead _ (List.mem_append_right _ List.mem_cons_self)
      exact absurd hkind (by simp [Token.IsHead])
  · rw [hx, (Token.isBalanced_of_isHead hhead).inBody_append_iff]
    exact htail.inBody rfl

/-- A phrase closes the braces that it opens. -/
theorem Phrase.isBalanced (h : Phrase lineStart before rest ss ls after) (p : Position) :
    Token.IsBalanced (Stretch.tokens p ss) := by
  cases h with
  | comment | indent | header | text => rfl
  | statement =>
    unfold Stretch.ofText
    split <;> rfl
  | @reference _ _ name _ _ _ _ _ _ _ _ h =>
    obtain ⟨head, tail, hhead, htail, htokens⟩ := h.exists_head name p
    rw [htokens]
    exact (Token.isBalanced_of_isHead hhead).append htail.isBalanced

/-- Where a line begins inside a phrase, it begins in the body of a reference. -/
theorem Phrase.inBody_of_endsLine (h : Phrase lineStart before rest (x ++ y) ls after)
    (hends : Text.endsLine (Stretch.join x) = true) (hy : y ≠ []) (p : Position) :
    Token.InBody (Stretch.tokens p x) := by
  obtain rfl | ⟨init, s, rfl⟩ := List.eq_nil_or_concat' x
  · cases hends
  have hpos := List.length_pos_iff.mpr hy
  have hfragment : s.IsFragment := by
    rcases h.isFragment with hall | hcomment
    · exact hall s (by simp)
    · have hlength := congrArg List.length hcomment
      simp only [List.length_append, List.length_singleton] at hlength
      omega
  obtain ⟨⟨hne, -⟩, htext⟩ := hfragment
  rw [Stretch.join_append, Stretch.join_cons, Stretch.join_nil, List.append_nil,
    Text.endsLine_append hne] at hends
  obtain ⟨text, rfl⟩ := htext hends
  rw [List.append_assoc, List.singleton_append] at h
  generalize hss : init ++ Stretch.token .text text :: y = ss at h
  have hlong : 2 ≤ ss.length := by
    simp only [← hss, List.length_append, List.length_cons]
    omega
  cases h with
  | comment | indent | header | text => exact absurd hlong (by simp)
  | @statement _ _ _ mid =>
    cases init with
    | nil => cases (List.cons.inj hss).1
    | cons z init =>
      have hline : init ++ _ :: y = Stretch.ofText .text (Text.cutLine mid).1 := (List.cons.inj hss).2
      have hlength := congrArg List.length hline
      have hshort : (Stretch.ofText .text (Text.cutLine mid).1).length ≤ 1 := by
        unfold Stretch.ofText
        split <;> simp
      simp only [List.length_append, List.length_cons] at hlength
      omega
  | reference _ _ _ hattached =>
    have hbody := hattached.inBody hss.symm p
    rw [Stretch.tokens_append]
    simpa [Token.InBody, Stretch.tokens] using hbody

/-- Where phrases in a row lead from the start of a script: the stretches passed, whether only white
space was seen on the line, and the text ahead. -/
inductive Walk (source : Text) : List Stretch → Bool → Text → Prop
  | start : Walk source [] true source
  | step {passed ss : List Stretch} {lineStart ls : Bool} {rest after : Text}
      (h : Walk source passed lineStart rest)
      (hphrase : Phrase lineStart (Stretch.join passed).getLast? rest ss ls after) :
      Walk source (passed ++ ss) ls after

variable {source : Text} {passed more : List Stretch}

/-- The stretches passed and the text ahead make up the script. -/
theorem Walk.join (h : Walk source passed lineStart rest) :
    Stretch.join passed ++ rest = source := by
  induction h with
  | start => rfl
  | step _ hphrase ih => rw [Stretch.join_append, List.append_assoc, hphrase.join, ih]

/-- A walk and the phrases of the text ahead are the phrases of the script. -/
theorem Walk.phrases (h : Walk source passed lineStart rest)
    (hmore : Phrases lineStart (Stretch.join passed).getLast? rest more) :
    Phrases true none source (passed ++ more) := by
  induction h generalizing more with
  | start => exact hmore
  | step _ hphrase ih =>
    rw [Stretch.join_append, List.getLast?_append] at hmore
    rw [List.append_assoc]
    exact ih (.cons hphrase hmore)

/-- Between phrases every brace is closed. -/
theorem Walk.isBalanced (h : Walk source passed lineStart rest) :
    Token.IsBalanced (Stretch.tokens .start passed) := by
  induction h with
  | start => rfl
  | step _ hphrase ih =>
    rw [Stretch.tokens_append]
    exact ih.append (hphrase.isBalanced _)

/-- Where a line begins, the lexer knows that only white space was seen on it. -/
theorem Walk.lineStart_of_endsLine (h : Walk source passed lineStart rest)
    (hpassed : Stretch.join passed = [] ∨ Text.endsLine (Stretch.join passed) = true) :
    lineStart = true := by
  cases h with
  | start => rfl
  | step _ hphrase =>
    have hne := hphrase.join_ne_nil
    rw [Stretch.join_append] at hpassed
    rcases hpassed with hnil | hends
    · exact absurd (List.append_eq_nil_iff.mp hnil).2 hne
    · rw [Text.endsLine_append hne] at hends
      exact hphrase.lineStart_of_endsLine hends

/-- A construct of line starts or a reference with white space before it opens its line. -/
theorem opensLine_of_leads {space lead : Text} (hne : space ≠ [])
    (hspace : space.all isHorizontal = true) (h : Leads space.getLast? (scan lead)) :
    opensLine (scan (space ++ lead)) = true := by
  rw [opensLine, splitSpace_append hspace (stops_isHorizontal_of_leads h)]
  rcases h with h | h | h <;> simp [h, hne]

/-- Blank text where a line may open goes to the end of the line or of the script. -/
theorem endsLine_of_isBlank {text : Text} (hline : opensLine (scan rest) = false)
    (hsplit : splitText before (scan rest) = (text, scan after)) (hne : text ≠ [])
    (hblank : Text.isBlank text = true) : Text.endsLine text = true ∨ after = [] := by
  have hsound (p : Piece) (hp : p ∈ scan rest) : p.Sound := Piece.sound_of_mem_scan hp
  have hstops := splitText_stops before (scan rest) hsound
  have hbreak := not_mem_dropLast_splitText before hsound
  have hrest := (eq_append_of_taken (splitText_append_eq before (scan rest))).1
  rw [hsplit] at hstops hbreak hrest
  rw [Piece.join_scan] at hrest
  rcases hstops with hends | hnil | hstart
  · exact Or.inl hends
  · exact Or.inr (Piece.scan_eq_nil_iff.mp hnil)
  · by_cases hends : Text.endsLine text = true
    · exact Or.inl hends
    · -- a reference after mere white space would have made an indent of it
      rw [List.getLast?_eq_some_getLast hne, Option.some_or,
        ← List.getLast?_eq_some_getLast hne] at hstart
      have hopens := opensLine_of_leads hne (isHorizontal_of_isBlank hblank hbreak hends)
        (Or.inr (Or.inr hstart))
      rw [← hrest, hline] at hopens
      cases hopens

/-- If only white space was seen on the line, then a line begins here, the script ends here, or an
indent ends here. -/
theorem Walk.cases_of_lineStart (h : Walk source passed lineStart rest) (hls : lineStart = true) :
    (Stretch.join passed = [] ∨ Text.endsLine (Stretch.join passed) = true) ∨ rest = [] ∨
      ∃ front space, passed = front ++ [.token .text space] ∧ space ≠ [] ∧
        space.all isHorizontal = true ∧ Leads space.getLast? (scan rest) ∧
          (Stretch.join front = [] ∨ Text.endsLine (Stretch.join front) = true) := by
  induction h with
  | start => exact Or.inl (Or.inl rfl)
  | @step passed ss lineStart ls rest after h hphrase ih =>
    have hne := hphrase.join_ne_nil
    rw [Stretch.join_append, Text.endsLine_append hne]
    cases hphrase with
    | comment =>
      refine (Text.endsLine_cutLine rest).imp (fun hends => Or.inr ?_) Or.inl
      simpa [Stretch.text] using hends
    | @indent _ space lead hspaceNe hspace hleads =>
      refine Or.inr (Or.inr ⟨passed, space, rfl, hspaceNe, hspace, hleads, ?_⟩)
      rcases ih rfl with hstart | hnil | ⟨_, _, _, _, _, hopens, _⟩
      · exact hstart
      · exact absurd (List.append_eq_nil_iff.mp hnil).1 hspaceNe
      · exact absurd hopens (not_leads_of_isHorizontal hspaceNe hspace)
    | header | reference => cases hls
    | @statement _ _ text mid =>
      refine (Text.endsLine_cutLine mid).imp (fun hends => Or.inr ?_) Or.inl
      have hlineNe : (Text.cutLine mid).1 ≠ [] := by
        intro hnil
        rw [hnil] at hends
        cases hends
      rw [Stretch.join_cons, Stretch.join_ofText, Text.endsLine_append hlineNe]
      exact hends
    | @text _ _ _ text _ _ hline _ hsplit =>
      rw [Stretch.join_cons, Stretch.join_nil, List.append_nil] at hne ⊢
      rw [Bool.or_eq_true, Bool.and_eq_true] at hls
      rcases hls with hends | ⟨hlineStart, hblank⟩
      · exact Or.inl (Or.inr hends)
      · exact (endsLine_of_isBlank (hline hlineStart) hsplit hne hblank).imp Or.inr Or.inl

/-- Where a line begins in the text ahead, a stretch begins: the lexer is in the body of a reference,
or it walks from there over the lines that are left. -/
theorem Walk.exists_line (h : Walk source passed lineStart rest)
    (hmore : Phrases lineStart (Stretch.join passed).getLast? rest more) {front lines : Text}
    (hrest : rest = front ++ lines)
    (hfront : Stretch.join passed ++ front = [] ∨
      Text.endsLine (Stretch.join passed ++ front) = true) :
    ∃ x y, more = x ++ y ∧ Stretch.join x = front ∧
      (Token.InBody (Stretch.tokens .start (passed ++ x)) ∨ Walk source (passed ++ x) true lines ∧
        Phrases true (Stretch.join (passed ++ x)).getLast? lines y) := by
  induction hn : rest.length using Nat.strongRecOn generalizing passed lineStart rest more front with
  | _ n ih =>
    by_cases hnil : front = []
    · subst hnil hrest
      rw [List.append_nil] at hfront
      obtain rfl := h.lineStart_of_endsLine hfront
      refine ⟨[], more, rfl, rfl, Or.inr ?_⟩
      rw [List.append_nil]
      exact ⟨h, hmore⟩
    · have hends : Text.endsLine front = true := by
        rcases hfront with hnone | hends
        · exact absurd (List.append_eq_nil_iff.mp hnone).2 hnil
        · rwa [Text.endsLine_append hnil] at hends
      cases hmore with
      | nil => exact absurd (List.append_eq_nil_iff.mp hrest.symm).1 hnil
      | @cons _ ls _ _ after ss ts hphrase hts =>
        have hpast {left : Text} (hleft : front = Stretch.join ss ++ left)
            (hafter : after = left ++ lines) : ∃ x y, ss ++ ts = x ++ y ∧ Stretch.join x = front ∧
              (Token.InBody (Stretch.tokens .start (passed ++ x)) ∨
                Walk source (passed ++ x) true lines ∧
                  Phrases true (Stretch.join (passed ++ x)).getLast? lines y) := by
          have hlt := hphrase.length_lt
          rw [← List.getLast?_append, ← Stretch.join_append] at hts
          rw [hleft, ← List.append_assoc, ← Stretch.join_append] at hfront
          obtain ⟨x, y, rfl, hx, hresult⟩ := ih _ (by omega) (h.step hphrase) hts hafter hfront rfl
          rw [List.append_assoc] at hresult
          refine ⟨ss ++ x, y, (List.append_assoc ..).symm, ?_, hresult⟩
          rw [Stretch.join_append, hx, hleft]
        have hjoin := hphrase.join
        rw [hrest] at hjoin
        rcases List.append_eq_append_iff.mp hjoin with ⟨left, hleft, hafter⟩ | ⟨inner, hss, hlines⟩
        · exact hpast hleft hafter
        · obtain ⟨x, y, rfl, hx⟩ :=
            Stretch.exists_append_of_join hphrase.isWithinLine hss (Or.inr hends)
          by_cases hy : y = []
          · subst hy
            rw [List.append_nil] at hpast hss
            rw [hx, List.self_eq_append_right] at hss
            rw [List.append_nil]
            have hback : front = Stretch.join x ++ [] := by rw [hx, List.append_nil]
            have hahead : after = [] ++ lines := by
              rw [hlines, hss]
              rfl
            exact hpast hback hahead
          · rw [← hx] at hends
            have hbody := hphrase.inBody_of_endsLine hends hy (Position.start.advance (Stretch.join passed))
            refine ⟨x, y ++ ts, List.append_assoc .., hx, Or.inl ?_⟩
            rw [Stretch.tokens_append, h.isBalanced.inBody_append_iff]
            exact hbody

/-- Where a line begins in a script, a stretch begins: the lexer is in the body of a reference, or it
walks from there over the lines that are left. -/
theorem Phrases.exists_line {front lines : Text} (h : Phrases true none (front ++ lines) ss)
    (hfront : front = [] ∨ Text.endsLine front = true) :
    ∃ x y, ss = x ++ y ∧ Stretch.join x = front ∧
      (Token.InBody (Stretch.tokens .start x) ∨ Walk (front ++ lines) x true lines ∧
        Phrases true (Stretch.join x).getLast? lines y) :=
  Walk.start.exists_line h rfl hfront

/-- A stretch of the text ahead stands in a phrase that a walk leads to. -/
theorem Walk.exists_phrase (h : Walk source passed lineStart rest)
    (hmore : Phrases lineStart (Stretch.join passed).getLast? rest (x ++ s :: y)) :
    ∃ front ls here a b back next left, Walk source front ls here ∧
      Phrase ls (Stretch.join front).getLast? here (a ++ s :: b) back next ∧
        Phrases back (Stretch.join (front ++ (a ++ s :: b))).getLast? next left ∧
          passed ++ x = front ++ a ∧ y = b ++ left := by
  generalize hbefore : (Stretch.join passed).getLast? = before at hmore
  generalize hss : x ++ s :: y = ss at hmore
  induction hmore generalizing passed x with
  | nil => exact absurd hss (by simp)
  | @cons lineStart ls before rest after ss ts hphrase hts ih =>
    subst hbefore
    rw [← List.getLast?_append, ← Stretch.join_append] at hts
    have hpast {left : List Stretch} (hx : x = ss ++ left) (hleft : left ++ s :: y = ts) :=
      ih (h.step hphrase) (by rw [Stretch.join_append, List.getLast?_append]) hleft
    rcases List.append_eq_append_iff.mp hss with ⟨inner, hinner, hrest⟩ | ⟨left, hx, hleft⟩
    · cases inner with
      | nil =>
        rw [List.append_nil] at hinner
        have hx : x = ss ++ [] := by rw [hinner, List.append_nil]
        obtain ⟨front, ls, here, a, b, back, next, left, hresult⟩ := hpast hx hrest
        rw [List.append_nil, hinner] at hresult
        exact ⟨front, ls, here, a, b, back, next, left, hresult⟩
      | cons t inner =>
        obtain ⟨rfl, rfl⟩ := List.cons.inj hrest
        rw [hinner] at hphrase hts
        exact ⟨passed, _, _, x, inner, _, _, ts, h, hphrase, hts, rfl, rfl⟩
    · obtain ⟨front, ls, here, a, b, back, next, tail, hresult⟩ := hpast hx hleft.symm
      rw [List.append_assoc, ← hx] at hresult
      exact ⟨front, ls, here, a, b, back, next, tail, hresult⟩

/-- A stretch of a script stands in a phrase that a walk leads to. -/
theorem Phrases.exists_phrase (h : Phrases true none source (x ++ s :: y)) :
    ∃ front ls here a b back next left, Walk source front ls here ∧
      Phrase ls (Stretch.join front).getLast? here (a ++ s :: b) back next ∧
        Phrases back (Stretch.join (front ++ (a ++ s :: b))).getLast? next left ∧
          x = front ++ a ∧ y = b ++ left :=
  Walk.start.exists_phrase h

/-- The phrases of a script tile it with its tokens. -/
theorem exists_tiling (source : Text) :
    ∃ ss, Phrases true none source ss ∧ Stretch.Tiles source ss (Token.ofText source) := by
  obtain ⟨ss, h⟩ := exists_phrases true none source
  have hfit : Stretch.FitAll [] ss [] := h.fitAll fun _ _ => Or.inl rfl
  have htokens : Token.ofText source = _ := h.tokens .start
  have htiles := Stretch.tiles_of_fits h.join hfit.fits
  rw [← Position.advance_start] at htiles
  exact ⟨ss, h, by rwa [htokens]⟩

end Lexer

end PromptScript
