import PromptScript.Proofs.Lexing.Cover

/-!
# Tokens tile a script

A script is stretches in a row: the texts of its tokens, comment lines, and white space before the
brace of a reference. Each token stands where the text before it ends, counted in lines and
characters, and one empty token stands at the end of the script.
-/

namespace PromptScript

open Piece (scan isHorizontal)

/-- The place just past a text at the front of a script: a line more than it has line breaks, and
a column more than it has characters after the last of them. -/
def Position.after (passed : Text) : Position :=
  ⟨1 + passed.count '\n', 1 + (passed.reverse.takeWhile (· != '\n')).length⟩

/-- Characters passed one by one lead to the place just past them. -/
theorem Position.advance_start (passed : Text) : start.advance passed = after passed := by
  induction h : passed.reverse generalizing passed with
  | nil =>
    rw [List.reverse_eq_nil_iff.mp h]
    rfl
  | cons c before ih =>
    have hpassed : passed = before.reverse ++ [c] := by
      rw [← List.reverse_reverse passed, h, List.reverse_cons]
    rw [hpassed, advance_append, ih before.reverse (List.reverse_reverse before)]
    unfold after advance next
    by_cases hc : c = '\n'
    · subst hc
      simp [Nat.add_assoc]
    · simp [hc, Nat.add_comm]

namespace Stretch

/-- A comment line: its first character after white space is a number sign, and a line break can
only be its last character. -/
def IsComment (line : Text) : Prop :=
  (line.dropWhile isHorizontal).head? = some '#' ∧ '\n' ∉ line.dropLast

/-- What a stretch is, between the stretches before and after it. The text of a token is not empty;
a comment is a whole line; a gap is white space between the name or the target of a reference and
a brace. -/
def Fits (pre post : List Stretch) : Stretch → Prop
  | .token kind text => kind ≠ .eof ∧ text ≠ []
  | .comment line =>
    (join pre = [] ∨ Text.endsLine (join pre) = true) ∧ IsComment line ∧
      (Text.endsLine line = true ∨ join post = [])
  | .gap space =>
    space ≠ [] ∧ space.all isHorizontal = true ∧
      (∃ kind text, pre.getLast? = some (.token kind text) ∧
        (kind = .identifier ∨ kind = .target)) ∧
      ∃ kind, post.head? = some (.token kind ['{']) ∧ (kind = .braceOpen ∨ kind = .error)

/-- The tokens of stretches in a row after a text, each with the number of characters before it. -/
def spots (passed : Text) : List Stretch → List (Nat × Token)
  | [] => []
  | .token kind text :: rest =>
    (passed.length, ⟨kind, text, .after passed⟩) :: spots (passed ++ text) rest
  | s :: rest => spots (passed ++ s.text) rest

/-- How stretches tile a script with tokens: in a row they make up the script, each is what it
should be where it stands, and the tokens are theirs and one for the end. -/
structure Tiles (source : Text) (ss : List Stretch) (tokens : List Token) : Prop where
  /-- The stretches make up the script. -/
  join_eq : join ss = source
  /-- Each stretch fits where it stands. -/
  fits : ∀ pre s post, ss = pre ++ s :: post → s.Fits pre post
  /-- The tokens are those of the stretches, and one at the end. -/
  tokens_eq : tokens = (spots [] ss).map (·.2) ++ [⟨.eof, [], .after source⟩]
  /-- No other token is one for the end, and none is empty. -/
  tokens_ne : ∀ spot ∈ spots [] ss, spot.2.kind ≠ .eof ∧ spot.2.text ≠ []
  /-- The text of a token is a slice of the script. -/
  slice : ∀ spot ∈ spots [] ss, (source.drop spot.1).take spot.2.text.length = spot.2.text
  /-- A token stands where the text before it ends. -/
  place : ∀ spot ∈ spots [] ss, spot.2.place = .after (source.take spot.1)
  /-- The slices come one after another. -/
  disjoint : (spots [] ss).Pairwise fun a b => a.1 < b.1 ∧ a.1 + a.2.text.length ≤ b.1

/-- The tokens of stretches in a row are the same, counted from the start or place by place. -/
theorem map_spots (passed : Text) (ss : List Stretch) :
    (spots passed ss).map (·.2) = tokens (.after passed) ss := by
  induction ss generalizing passed with
  | nil => rfl
  | cons s ss ih =>
    have hplace (text : Text) : (Position.after passed).advance text = .after (passed ++ text) := by
      rw [← Position.advance_start, ← Position.advance_start, Position.advance_append]
    cases s with
    | token kind text => simp only [spots, tokens, List.map_cons, ih, hplace]
    | comment line => simp only [spots, tokens, ih, hplace]
    | gap space => simp only [spots, tokens, ih, hplace]

/-- A spot comes from a stretch that stands between others. -/
theorem exists_of_mem_spots {passed : Text} {ss : List Stretch} {spot : Nat × Token}
    (h : spot ∈ spots passed ss) : ∃ pre kind text post, ss = pre ++ .token kind text :: post ∧
      spot = ((passed ++ join pre).length, ⟨kind, text, .after (passed ++ join pre)⟩) := by
  have step {passed : Text} {s : Stretch} {ss : List Stretch}
      (ih : ∃ pre kind text post, ss = pre ++ .token kind text :: post ∧
        spot = ((passed ++ s.text ++ join pre).length,
          ⟨kind, text, .after (passed ++ s.text ++ join pre)⟩)) :
      ∃ pre kind text post, s :: ss = pre ++ .token kind text :: post ∧
        spot = ((passed ++ join pre).length, ⟨kind, text, .after (passed ++ join pre)⟩) := by
    obtain ⟨pre, kind, text, post, rfl, rfl⟩ := ih
    exact ⟨s :: pre, kind, text, post, rfl, by rw [join_cons, List.append_assoc]⟩
  induction ss generalizing passed with
  | nil => cases h
  | cons s ss ih =>
    cases s with
    | token kind text =>
      rcases List.mem_cons.mp h with rfl | h
      · exact ⟨[], kind, text, ss, rfl, by simp⟩
      · exact step (ih h)
    | comment line => exact step (ih h)
    | gap space => exact step (ih h)

/-- Spots come one after another, past the text before them. -/
theorem pairwise_spots {passed : Text} {ss : List Stretch}
    (hne : ∀ kind text, .token kind text ∈ ss → text ≠ []) :
    (spots passed ss).Pairwise (fun a b => a.1 < b.1 ∧ a.1 + a.2.text.length ≤ b.1) := by
  induction ss generalizing passed with
  | nil => exact .nil
  | cons s ss ih =>
    have hrest : (spots (passed ++ s.text) ss).Pairwise
        (fun a b => a.1 < b.1 ∧ a.1 + a.2.text.length ≤ b.1) :=
      ih fun kind text hmem => hne kind text (List.mem_cons_of_mem s hmem)
    cases s with
    | token kind text =>
      refine .cons (fun spot hspot => ?_) hrest
      obtain ⟨pre, k, t, post, -, rfl⟩ := exists_of_mem_spots hspot
      have hpos := List.length_pos_iff.mpr (hne kind text List.mem_cons_self)
      simp only [List.length_append]
      omega
    | comment line => exact hrest
    | gap space => exact hrest

/-- Stretches in a row that fit and make up a script tile it with their tokens. -/
theorem tiles_of_fits {source : Text} {ss : List Stretch} (hjoin : join ss = source)
    (hfits : ∀ pre s post, ss = pre ++ s :: post → s.Fits pre post) :
    Tiles source ss (tokens .start ss ++ [⟨.eof, [], .after source⟩]) where
  join_eq := hjoin
  fits := hfits
  tokens_eq := by rw [map_spots]; rfl
  tokens_ne := by
    intro spot hspot
    obtain ⟨pre, kind, text, post, hss, rfl⟩ := exists_of_mem_spots hspot
    exact hfits pre _ post hss
  slice := by
    intro spot hspot
    obtain ⟨pre, kind, text, post, rfl, rfl⟩ := exists_of_mem_spots hspot
    simp [← hjoin, Stretch.text]
  place := by
    intro spot hspot
    obtain ⟨pre, kind, text, post, rfl, rfl⟩ := exists_of_mem_spots hspot
    simp [← hjoin]
  disjoint := by
    refine pairwise_spots fun kind text hmem => ?_
    obtain ⟨pre, post, rfl⟩ := List.append_of_mem hmem
    exact (hfits pre _ post rfl).2

/-- Every one of the stretches in a row fits between the stretches before and after it. -/
def FitAll (pre : List Stretch) : List Stretch → List Stretch → Prop
  | [], _ => True
  | s :: ss, post => s.Fits pre (ss ++ post) ∧ FitAll (pre ++ [s]) ss post

/-- Stretches in a row fit if the one part fits before the other and the other after it. -/
theorem FitAll.append {pre ss ts post : List Stretch} (hss : FitAll pre ss (ts ++ post))
    (hts : FitAll (pre ++ ss) ts post) : FitAll pre (ss ++ ts) post := by
  induction ss generalizing pre with
  | nil => simpa using hts
  | cons s ss ih =>
    refine ⟨by simpa using hss.1, ih hss.2 ?_⟩
    simpa using hts

/-- Each of some stretches that fit is fit by itself where it stands. -/
theorem FitAll.fits {pre ss : List Stretch} (h : FitAll pre ss []) (a : List Stretch) (s : Stretch)
    (b : List Stretch) (hss : ss = a ++ s :: b) : s.Fits (pre ++ a) b := by
  induction a generalizing pre ss with
  | nil =>
    subst hss
    simpa using h.1
  | cons x a ih =>
    subst hss
    simpa using ih h.2 rfl

/-- Tokens that are not empty fit everywhere. -/
theorem fitAll_ofText (pre post : List Stretch) {kind : Token.Kind} (hkind : kind ≠ .eof)
    (text : Text) : FitAll pre (ofText kind text) post := by
  unfold ofText
  split
  · trivial
  · rename_i hne
    exact ⟨⟨hkind, by simpa using hne⟩, trivial⟩

end Stretch

namespace Lexer

open Stretch (FitAll Fits)

variable {rest after : Text} {ss : List Stretch}

/-- A line is a comment if its first character after white space is a number sign. -/
theorem startsComment_scan_iff (t : Text) :
    startsComment (scan t) = true ↔ (t.dropWhile isHorizontal).head? = some '#' := by
  rw [startsComment, splitSpace_scan]
  cases t.dropWhile isHorizontal with
  | nil => simp
  | cons c lead =>
    have hjoin := Piece.first_append c lead
    simp only [Piece.scan_cons, List.head?_cons, Option.any_some, beq_iff_eq, Option.some.injEq]
    constructor
    · intro hkind
      rw [(Piece.sound_first c lead).eq_hash hkind] at hjoin
      exact (List.cons.inj hjoin).1.symm
    · rintro rfl
      rw [Piece.first, if_neg (by decide), if_neg (by decide), if_neg (by decide),
        if_neg (by decide), if_pos rfl]

/-- The line that a comment begins is a comment. -/
theorem isComment_cutLine (h : startsComment (scan rest) = true) :
    Stretch.IsComment (Text.cutLine rest).1 := by
  refine ⟨?_, Text.not_mem_dropLast_cutLine rest⟩
  have hhead := (startsComment_scan_iff rest).mp h
  induction rest with
  | nil => simp at hhead
  | cons c rest ih =>
    have hc : c ≠ '\n' := by
      rintro rfl
      simp [isHorizontal] at hhead
    rw [Text.cutLine, if_neg hc]
    by_cases hspace : isHorizontal c = true
    · rw [List.dropWhile_cons_of_pos hspace] at hhead ⊢
      exact ih ((startsComment_scan_iff rest).mpr hhead) hhead
    · rw [List.dropWhile_cons_of_neg hspace] at hhead ⊢
      simpa using hhead

/-- The stretches of a body fit wherever they stand. -/
theorem Body.fitAll {depth : Nat} (h : Body depth rest ss after) (pre post : List Stretch) :
    FitAll pre ss post := by
  induction h generalizing pre with
  | close => exact ⟨⟨by simp, by simp⟩, trivial⟩
  | leave _ _ ih | enter _ ih => exact ⟨⟨by simp, by simp⟩, ih _⟩
  | fragment hne _ _ ih => exact ⟨⟨by simp, hne⟩, ih _⟩

/-- What follows a name or a target fits; a brace right after an at sign leaves no gap. -/
theorem Tail.fitAll {body : Option Text} (h : Tail rest ss body after) {pre : List Stretch} (post : List Stretch)
    (hpre : rest.head? ≠ some '{' → ∃ kind text, pre.getLast? = some (.token kind text) ∧
      (kind = .identifier ∨ kind = .target)) : FitAll pre ss post := by
  have hgap {space lead : Text} {kind : Token.Kind} (hspace : space.all isHorizontal = true)
      (hkind : kind = .braceOpen ∨ kind = .error) (ts : List Stretch)
      (hrest : rest = space ++ '{' :: lead) :
      FitAll pre (Stretch.ofGap space) (.token kind ['{'] :: ts) := by
    unfold Stretch.ofGap
    split
    · trivial
    · rename_i hne
      refine ⟨⟨by simpa using hne, hspace, hpre ?_, kind, rfl, hkind⟩, trivial⟩
      rw [hrest]
      cases space with
      | nil => simp at hne
      | cons c space =>
        intro hc
        cases hc
        rw [List.all_cons, Piece.not_isHorizontal_of_mem_marks (by decide)] at hspace
        cases hspace
  cases h with
  | bare => trivial
  | unclosed hspace =>
    exact FitAll.append (hgap hspace (Or.inr rfl) post rfl) ⟨⟨by simp, by simp⟩, trivial⟩
  | braced hspace hbody _ =>
    exact FitAll.append (hgap hspace (Or.inl rfl) _ rfl) ⟨⟨by simp, by simp⟩, hbody.fitAll _ _⟩

/-- What is attached to a name fits. -/
theorem Attachment.fitAll {colon : Bool} {target body : Option Text}
    (h : Attachment colon rest ss target body after) {pre : List Stretch} (post : List Stretch)
    (hpre : rest.head? ≠ some '{' → ∃ kind text, pre.getLast? = some (.token kind text) ∧
      (kind = .identifier ∨ kind = .target)) : FitAll pre ss post := by
  cases h with
  | target _ htail =>
    exact ⟨⟨by simp, by simp⟩, htail.fitAll post fun _ => ⟨.target, _, List.getLast?_concat, Or.inr rfl⟩⟩
  | unclosed => exact ⟨⟨by simp, by simp⟩, trivial⟩
  | plain _ htail => exact htail.fitAll post hpre

/-- A phrase after which only white space was seen on the line ended a line, or no comment comes
after it. -/
theorem Phrase.endsLine {lineStart ls : Bool} {before : Option Char}
    (h : Phrase lineStart before rest ss ls after) (hls : ls = true) :
    Text.endsLine (Stretch.join ss) = true ∨ startsComment (scan after) = false := by
  have hend : startsComment (scan []) = false := by simp [startsComment, splitSpace]
  cases h with
  | comment =>
    refine (Text.endsLine_cutLine rest).imp (fun h => by simpa [Stretch.text] using h) (fun h => ?_)
    rw [h, hend]
  | indent _ _ h => exact Or.inr (atStart_of_leads h).2
  | header | reference => cases hls
  | @statement before rest text mid h =>
    refine (Text.endsLine_cutLine mid).imp (fun h => ?_) (fun h => by rw [h, hend])
    unfold Text.endsLine at h ⊢
    simp only [beq_iff_eq] at h
    simp [Stretch.text, List.getLast?_append, h]
  | @text _ before rest text after _ _ _ h =>
    have hstops := splitText_stops before (scan rest) fun p hp => Piece.sound_of_mem_scan hp
    rw [h] at hstops
    rcases hstops with hline | hnil | hstart
    · exact Or.inl (by simpa [Stretch.text] using hline)
    · refine Or.inr (hend ▸ congrArg startsComment ?_)
      rw [Piece.scan_nil]
      exact hnil
    · exact Or.inr (not_startsComment_of_startsReference hstart)

/-- The stretches of a phrase fit, if a comment stands where a line begins. -/
theorem Phrase.fitAll {lineStart ls : Bool} {before : Option Char}
    (h : Phrase lineStart before rest ss ls after) {pre post : List Stretch}
    (hpre : lineStart = true → startsComment (scan rest) = true →
      Stretch.join pre = [] ∨ Text.endsLine (Stretch.join pre) = true)
    (hpost : Stretch.join post = after) : FitAll pre ss post := by
  cases h with
  | comment h =>
    refine ⟨⟨hpre rfl h, isComment_cutLine h, ?_⟩, trivial⟩
    rw [List.nil_append, hpost]
    exact Text.endsLine_cutLine rest
  | indent hne => exact ⟨⟨by simp, hne⟩, trivial⟩
  | header h => exact ⟨⟨by simp, ne_nil_of_taken (header?_append_eq h) (length_header?_lt h)⟩, trivial⟩
  | statement h =>
    exact ⟨⟨by simp, ne_nil_of_taken (statement?_append_eq h) (length_statement?_lt h)⟩,
      Stretch.fitAll_ofText _ _ (by simp) _⟩
  | @reference _ before name rest after ss _ _ hname hrest hstart h =>
    refine ⟨⟨by simp, by simp⟩, (Stretch.fitAll_ofText _ _ (by simp) name).append
      (h.fitAll post fun hbrace => ?_)⟩
    cases name with
    | nil =>
      exfalso
      rw [Piece.scan_at hname hrest] at hstart
      cases rest with
      | nil => simp [startsReference] at hstart
      | cons c rest =>
        have hkind : (Piece.first c rest).1.kind = .leftBrace := by
          simpa [startsReference, Piece.scan_cons] using (Bool.and_eq_true_iff.mp hstart).2
        have hjoin := Piece.first_append c rest
        rw [(Piece.sound_first c rest).eq_leftBrace hkind] at hjoin
        exact hbrace (congrArg some (List.cons.inj hjoin).1.symm)
    | cons c name => exact ⟨.identifier, c :: name, by simp [Stretch.ofText], Or.inl rfl⟩
  | text hne hline hstart h =>
    have hnonempty := (Phrase.text hne hline hstart h).join_ne_nil
    exact ⟨⟨by simp, by simpa [Stretch.text] using hnonempty⟩, trivial⟩

/-- The stretches of phrases in a row fit. -/
theorem Phrases.fitAll {lineStart : Bool} {before : Option Char}
    (h : Phrases lineStart before rest ss) {pre : List Stretch}
    (hpre : lineStart = true → startsComment (scan rest) = true →
      Stretch.join pre = [] ∨ Text.endsLine (Stretch.join pre) = true) : FitAll pre ss [] := by
  induction h generalizing pre with
  | nil => trivial
  | @cons lineStart ls before rest after ss ts h hrest ih =>
    refine (h.fitAll hpre (by rw [List.append_nil, hrest.join])).append (ih ?_)
    rintro rfl hcomment
    rcases h.endsLine rfl with hline | hnone
    · right
      unfold Text.endsLine at hline ⊢
      simp only [beq_iff_eq] at hline
      simp [List.getLast?_append, hline]
    · rw [hnone] at hcomment
      cases hcomment

/-- No token comes after all tokens were drawn. -/
theorem next?_drained (l : Lexer) : l.drained.next? = none := by
  fun_induction drained l with
  | case1 l h => exact h
  | case2 l token after h ih => exact ih

end Lexer

/-- The tokens of a script tile it, and the lexer has nothing more to give after them. -/
theorem tokens_tile (source : Text) :
    (∃ ss, Stretch.Tiles source ss (Token.ofText source)) ∧
      (Lexer.ofText source).drained.next? = none := by
  obtain ⟨ss, h⟩ := Lexer.exists_phrases true none source
  have hfit : Stretch.FitAll [] ss [] := h.fitAll fun _ _ => Or.inl rfl
  have htokens : Token.ofText source =
      Stretch.tokens .start ss ++ [⟨.eof, [], .after source⟩] := by
    rw [← Position.advance_start]
    exact h.tokens .start
  refine ⟨⟨ss, ?_⟩, Lexer.next?_drained _⟩
  rw [htokens]
  exact Stretch.tiles_of_fits h.join hfit.fits

end PromptScript
