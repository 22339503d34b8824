import PromptScript.Proofs.Lexing.Leading

/-!
# Where references begin

An at sign begins a reference exactly where running text holds it, no word runs into it, and a name
or a brace comes right after it. The name is as long as it can be, and a target is attached to it
exactly if it ends with a colon and a quote on the same line comes right after it.
-/

namespace PromptScript

open Piece (scan isHorizontal)

namespace Lexer

variable {before : Option Char}

/-- A reference begins with an at sign that no word runs into and that a name or a brace follows. -/
theorem startsReference_at (before : Option Char) (after : Text) :
    startsReference before (scan ('@' :: after)) =
      (!before.any Text.joinsWord && after.head?.any fun c => Text.isName c || c == '{') := by
  have hname : (after.takeWhile Text.isName).all Text.isName = true := List.all_takeWhile
  have hscan := Piece.scan_at hname (Piece.stops_dropWhile Text.isName after)
  rw [List.takeWhile_append_dropWhile] at hscan
  rw [hscan, startsReference]
  cases after with
  | nil => simp
  | cons c rest =>
    by_cases hc : Text.isName c = true
    · simp [hc]
    · have hbrace : ((Piece.first c rest).1.kind == .leftBrace) = (c == '{') := by
        by_cases hleft : c = '{'
        · subst hleft
          rfl
        · have hkind : (Piece.first c rest).1.kind ≠ .leftBrace := by
            intro hkind
            have hjoin := Piece.first_append c rest
            rw [(Piece.sound_first c rest).eq_leftBrace hkind] at hjoin
            exact hleft (List.cons.inj hjoin).1.symm
          rw [beq_eq_false_iff_ne.mpr hkind, beq_eq_false_iff_ne.mpr hleft]
      simp [List.takeWhile_cons_of_neg hc, List.dropWhile_cons_of_neg hc, Piece.scan_cons, hc, hbrace]

/-- A piece that holds an at sign begins with it. -/
theorem eq_nil_of_mem_at {p : Piece} {x y : Text} (hp : p.Sound) (h : p.text = x ++ '@' :: y) :
    x = [] := by
  have hmem : '@' ∈ p.text := h ▸ List.mem_append_right x List.mem_cons_self
  have hkind : p.kind = .at := by
    rcases hp.eq_of_mem_marks hmem (by decide) with h | h | h | h | h | h
    all_goals first | exact h.1 | exact absurd h.2 (by decide)
  obtain ⟨name, rfl, hname⟩ := hp.eq_at hkind
  cases x with
  | nil => rfl
  | cons c x =>
    have hrest : name = x ++ '@' :: y := (List.cons.inj h).2
    have hat := List.all_eq_true.mp hname '@' (hrest ▸ List.mem_append_right x List.mem_cons_self)
    rw [Piece.not_isName_of_mem_marks (by decide)] at hat
    cases hat

/-- No reference begins at an at sign in text that the lexer takes as a fragment. -/
theorem startsReference_of_splitText {t x y : Text} {after : List Piece}
    (h : splitText before (scan t) = (x ++ '@' :: y, after)) :
    startsReference (x.getLast?.or before) (scan ('@' :: (y ++ Piece.join after))) = false := by
  fun_induction scan t generalizing before x with
  | case1 =>
    have htext : [] = x ++ '@' :: y := congrArg Prod.fst h
    simp at htext
  | case2 c rest ih =>
    have hsound := Piece.sound_first c rest
    have hjoin := Piece.first_append c rest
    have hscan := Piece.scan_cons c rest
    rw [splitText] at h
    split at h
    · have htext : [] = x ++ '@' :: y := congrArg Prod.fst h
      simp at htext
    · rename_i hstart
      split at h
      · rename_i hkind
        have htext : (Piece.first c rest).1.text = x ++ '@' :: y := congrArg Prod.fst h
        rw [hsound.eq_newline hkind] at htext
        have hmem : '@' ∈ Piece.lineBreak.text := htext ▸ List.mem_append_right x List.mem_cons_self
        exact absurd hmem (by decide)
      · have htaken := splitText_append_eq (Piece.first c rest).1.text.getLast? (scan (Piece.first c rest).2)
        have hafter := (eq_append_of_taken htaken).1
        generalize hparts : splitText _ _ = parts at h hafter
        obtain ⟨fragment, left⟩ := parts
        obtain ⟨htext, rfl⟩ := Prod.mk.inj h
        rcases Text.append_cons_eq_append htext.symm with ⟨m, hpiece, rfl⟩ | ⟨m, rfl, rfl⟩
        · obtain rfl := eq_nil_of_mem_at hsound hpiece
          have hwhole : '@' :: (m ++ fragment ++ Piece.join left) = c :: rest := by
            rw [← hjoin, hpiece, List.append_assoc, ← hafter]
            rfl
          rw [hwhole, hscan]
          simpa using hstart
        · have hmore := ih hparts
          have hne := List.getLast?_eq_some_getLast hsound.ne_nil
          rw [List.getLast?_append, Option.or_assoc, hne, Option.some_or]
          rwa [hne] at hmore

/-- Whether a stretch after others hides the at signs that it holds: it stands in the body of a
reference, it is the target of a reference or a comment, or it is the rest of the line of a
statement. -/
def Hides (passed : List Stretch) (s : Stretch) : Prop :=
  Token.InBody (Stretch.tokens .start passed) ∨
    match s with
    | .comment _ => True
    | .token .target _ => True
    | .token .text _ => ∃ keyword, passed.getLast? = some (.token .statementKeyword keyword)
    | _ => False

variable {lineStart ls : Bool} {rest after : Text} {s : Stretch} {ss x y : List Stretch}

/-- At signs in a body are text. -/
theorem Body.eq_text_of_mem_at {depth : Nat} (h : Body depth rest ss after) :
    ∀ s ∈ ss, '@' ∈ s.text → ∃ text, s = .token .text text := by
  induction h with
  | close => simp [Stretch.text]
  | leave _ _ ih | enter _ ih => exact List.forall_mem_cons.mpr ⟨by simp [Stretch.text], ih⟩
  | fragment _ _ _ ih => exact List.forall_mem_cons.mpr ⟨fun _ => ⟨_, rfl⟩, ih⟩

/-- At signs that follow a target are text of the body. -/
theorem Tail.eq_text_of_mem_at {body : Option Text} (h : Tail rest ss body after) :
    ∀ s ∈ ss, '@' ∈ s.text → ∃ text, s = .token .text text := by
  have hgap {space : Text} (hspace : space.all isHorizontal = true) :
      ∀ s ∈ Stretch.ofGap space, '@' ∈ s.text → ∃ text, s = .token .text text := by
    intro s hs hat
    have hmem : '@' ∈ space := by
      rw [← Stretch.join_ofGap space]
      exact List.mem_flatMap.mpr ⟨s, hs, hat⟩
    have hat := List.all_eq_true.mp hspace _ hmem
    rw [Piece.not_isHorizontal_of_mem_marks (by decide)] at hat
    cases hat
  cases h with
  | bare => simp
  | unclosed hspace => exact List.forall_mem_append.mpr ⟨hgap hspace, by simp [Stretch.text]⟩
  | braced hspace hbody _ =>
    exact List.forall_mem_append.mpr ⟨hgap hspace,
      List.forall_mem_cons.mpr ⟨by simp [Stretch.text], hbody.eq_text_of_mem_at⟩⟩

/-- Of what is attached to a name, only the target and text hold at signs. -/
theorem Attachment.eq_text_of_mem_at {colon : Bool} {target body : Option Text}
    (h : Attachment colon rest ss target body after) :
    ∀ s ∈ ss, '@' ∈ s.text → ∃ text, s = .token .target text ∨ s = .token .text text := by
  cases h with
  | target _ htail =>
    exact List.forall_mem_cons.mpr ⟨fun _ => ⟨_, Or.inl rfl⟩, fun s hs hat =>
      (htail.eq_text_of_mem_at s hs hat).imp fun _ => Or.inr⟩
  | unclosed => simp [Stretch.text]
  | plain _ htail => exact fun s hs hat => (htail.eq_text_of_mem_at s hs hat).imp fun _ => Or.inr

/-- Pieces of other kinds than that of at signs hold none. -/
theorem not_mem_at_of_kinds {words more : List Piece} (hscan : scan rest = words ++ more)
    (hkinds : ∀ p ∈ words, p.kind ≠ .at) : '@' ∉ Piece.join words := by
  intro hmem
  obtain ⟨p, hp, hat⟩ := List.mem_flatMap.mp hmem
  have hsound : p.Sound := Piece.sound_of_mem_scan (hscan ▸ List.mem_append_left more hp)
  rcases hsound.eq_of_mem_marks hat (by decide) with h | h | h | h | h | h
  all_goals first | exact hkinds p hp h.1 | exact absurd h.2 (by decide)

/-- A header holds no at sign. -/
theorem not_mem_at_of_header? {text : Text} {more : List Piece}
    (h : header? (scan rest) = some (text, more)) : '@' ∉ text := by
  obtain ⟨words, hscan, hheader, rfl⟩ := header?_eq_some_iff.mp h
  refine not_mem_at_of_kinds hscan ?_
  obtain ⟨hword, hspace, hcolon⟩ := hheader
  cases hspace with
  | none => simp [hword, hcolon.1]
  | space hspace => simp [hword, hcolon.1, hspace]

/-- The keyword of a statement holds no at sign. -/
theorem not_mem_at_of_statement? {text : Text} {more : List Piece}
    (h : statement? (scan rest) = some (text, more)) : '@' ∉ text := by
  obtain ⟨words, hscan, hkeyword, rfl⟩ := statement?_eq_some_iff.mp h
  refine not_mem_at_of_kinds hscan ?_
  cases hkeyword with
  | one hword => rcases hword with hword | hword | hword <;> simp [hword]
  | two hspace hwords =>
    rcases hwords with ⟨hword, hnext⟩ | ⟨hword, hnext⟩ | ⟨hword, hnext⟩
    all_goals simp [hspace, hword, hnext]

/-- A stretch of a phrase that holds an at sign is the start of a reference, or it hides the at sign,
or it is text in which no reference begins there. -/
theorem Phrase.cases_of_at {u v : Text} {passed : List Stretch}
    (h : Phrase lineStart (Stretch.join passed).getLast? rest (x ++ s :: y) ls after)
    (hpassed : Token.IsBalanced (Stretch.tokens .start passed)) (hs : s.text = u ++ '@' :: v) :
    (x = [] ∧ s = .token .referenceStart ['@'] ∧
        startsReference (Stretch.join passed).getLast? (scan rest) = true) ∨
      s ≠ .token .referenceStart ['@'] ∧ (Hides (passed ++ x) s ∨
        startsReference (Stretch.join (passed ++ x) ++ u).getLast?
          (scan ('@' :: (v ++ (Stretch.join y ++ after)))) = false) := by
  have hat : '@' ∈ s.text := hs ▸ List.mem_append_right u List.mem_cons_self
  generalize hss : x ++ s :: y = ss at h
  have hmem : s ∈ ss := hss ▸ List.mem_append_right x List.mem_cons_self
  cases h with
  | comment =>
    obtain rfl := List.mem_singleton.mp hmem
    exact Or.inr ⟨by simp, Or.inl (Or.inr trivial)⟩
  | indent _ hspace =>
    obtain rfl := List.mem_singleton.mp hmem
    have hhorizontal := List.all_eq_true.mp hspace _ hat
    rw [Piece.not_isHorizontal_of_mem_marks (by decide)] at hhorizontal
    cases hhorizontal
  | header hheader =>
    obtain rfl := List.mem_singleton.mp hmem
    exact absurd hat (not_mem_at_of_header? hheader)
  | @statement _ _ text mid hstatement =>
    right
    cases x with
    | nil =>
      obtain ⟨rfl, -⟩ := List.cons.inj hss
      exact absurd hat (not_mem_at_of_statement? hstatement)
    | cons z x =>
      obtain ⟨rfl, hline⟩ := List.cons.inj hss
      rw [Stretch.ofText] at hline
      split at hline
      · simp at hline
      · obtain ⟨rfl, heq⟩ | ⟨_, -, hnil⟩ := List.append_eq_cons_iff.mp hline
        · obtain ⟨rfl, -⟩ := List.cons.inj heq
          exact ⟨by simp, Or.inl (Or.inr ⟨text, List.getLast?_concat⟩)⟩
        · simp at hnil
  | @reference _ _ name _ _ ts _ _ hname _ hstart hattached =>
    cases x with
    | nil =>
      obtain ⟨rfl, -⟩ := List.cons.inj hss
      exact Or.inl ⟨rfl, rfl, hstart⟩
    | cons z x =>
      right
      have hrest : s ∈ Stretch.ofText .identifier name ++ ts :=
        (List.cons.inj hss).2 ▸ List.mem_append_right x List.mem_cons_self
      rcases List.mem_append.mp hrest with hrest | hrest
      · have hmemName : '@' ∈ name := by
          rw [← Stretch.join_ofText .identifier name]
          exact List.mem_flatMap.mpr ⟨s, hrest, hat⟩
        have hisName := List.all_eq_true.mp hname _ hmemName
        rw [Piece.not_isName_of_mem_marks (by decide)] at hisName
        cases hisName
      · obtain ⟨text, rfl | rfl⟩ := hattached.eq_text_of_mem_at s hrest hat
        · exact ⟨by simp, Or.inl (Or.inr trivial)⟩
        · refine ⟨by simp, Or.inl (Or.inl ?_)⟩
          rw [Stretch.tokens_append, hpassed.inBody_append_iff]
          exact hattached.inBody hss.symm _
  | @text _ _ _ text _ _ _ _ hsplit =>
    right
    obtain ⟨rfl, heq⟩ | ⟨_, -, hnil⟩ := List.append_eq_cons_iff.mp hss
    · obtain ⟨rfl, rfl⟩ := List.cons.inj heq
      have hfragment : text = u ++ '@' :: v := hs
      subst hfragment
      have hstart := startsReference_of_splitText hsplit
      refine ⟨by simp, Or.inr ?_⟩
      rw [List.append_nil, List.getLast?_append]
      simpa using hstart
    · simp at hnil

/-- A stretch of a script that holds an at sign is the start of a reference exactly if it does not hide
the at sign and a reference begins there. -/
theorem Phrases.eq_referenceStart_iff {source u v : Text}
    (h : Phrases true none source (x ++ s :: y)) (hs : s.text = u ++ '@' :: v) :
    s = .token .referenceStart ['@'] ↔ ¬Hides x s ∧
      startsReference (Stretch.join x ++ u).getLast? (scan ('@' :: (v ++ Stretch.join y))) = true := by
  obtain ⟨front, lineStart, here, a, b, ls, after, left, hwalk, hphrase, hleft, rfl, rfl⟩ :=
    h.exists_phrase
  have hbalanced := hwalk.isBalanced
  rw [Stretch.join_append b left, hleft.join]
  rcases hphrase.cases_of_at hbalanced hs with ⟨rfl, rfl, hstart⟩ | ⟨hne, hides | hstart⟩
  · obtain ⟨rfl, hv⟩ | ⟨_, -, hnil⟩ := List.append_eq_cons_iff.mp hs.symm
    · have hjoin := hphrase.join
      rw [List.nil_append, Stretch.join_cons, List.append_assoc, hs, List.nil_append,
        List.cons_append] at hjoin
      rw [List.append_nil, List.append_nil, hjoin]
      exact iff_of_true rfl ⟨not_or.mpr ⟨hbalanced.not_inBody, id⟩, hstart⟩
    · simp at hnil
  · exact iff_of_false hne fun h => h.1 hides
  · exact iff_of_false hne fun hother => Bool.false_ne_true (hstart.symm.trans hother.2)

/-- Whether a text begins with a quote that another one closes on the same line, and the quoted text
with its quotes. -/
def IsQuoted (rest quoted : Text) : Prop :=
  ∃ inner more, rest = '"' :: (inner ++ '"' :: more) ∧ '"' ∉ inner ∧ '\n' ∉ inner ∧
    quoted = '"' :: (inner ++ ['"'])

/-- The lexer finds a quote exactly if the text begins with one. -/
theorem isQuoted_iff {quoted : Text} : IsQuoted ('"' :: rest) quoted ↔
    ∃ inner more, Text.cutQuote? rest = some (inner, more) ∧ quoted = '"' :: inner := by
  constructor
  · rintro ⟨inner, more, hrest, hquote, hline, rfl⟩
    refine ⟨inner ++ ['"'], more, ?_, rfl⟩
    rw [(List.cons.inj hrest).2, Text.cutQuote?_append hline hquote]
    simp [Text.cutQuote?]
  · rintro ⟨text, more, hcut, rfl⟩
    obtain ⟨inner, rfl, hquote, hline⟩ := Text.cutQuote?_eq_some hcut
    refine ⟨inner, more, ?_, hquote, hline, rfl⟩
    rw [← cutQuote?_join hcut]
    simp

/-- A phrase begins with no name and no target. -/
theorem Phrases.head_ne {kind : Token.Kind} {text : Text} (h : Phrases lineStart before rest ss)
    (hkind : kind = .identifier ∨ kind = .target) : ss.head? ≠ some (.token kind text) := by
  cases h with
  | nil => simp
  | cons h _ =>
    cases h with
    | comment | indent | header | statement | reference | text =>
      rcases hkind with rfl | rfl <;> simp

/-- What may follow a target begins with no name and no target. -/
theorem Tail.head_ne {kind : Token.Kind} {text : Text} {body : Option Text} {more : List Stretch}
    (h : Tail rest ss body after) (hkind : kind = .identifier ∨ kind = .target)
    (hmore : more.head? ≠ some (.token kind text)) :
    (ss ++ more).head? ≠ some (.token kind text) := by
  have hgap (space : Text) (ts : List Stretch) (hts : ts.head? ≠ some (.token kind text)) :
      (Stretch.ofGap space ++ ts).head? ≠ some (.token kind text) := by
    cases space with
    | nil => exact hts
    | cons c space => simp [Stretch.ofGap]
  cases h with
  | bare => exact hmore
  | unclosed =>
    rw [List.append_assoc]
    exact hgap _ _ (by rcases hkind with rfl | rfl <;> simp)
  | braced =>
    rw [List.append_assoc]
    exact hgap _ _ (by rcases hkind with rfl | rfl <;> simp)

/-- A target is attached to a name exactly if the name ends with a colon and a quote comes right after
it, and no other name is. -/
theorem Attachment.head_eq_iff {colon : Bool} {target body : Option Text} {more : List Stretch}
    (h : Attachment colon rest ss target body after)
    (hmore : ∀ kind text, kind = .identifier ∨ kind = .target →
      more.head? ≠ some (.token kind text)) :
    (∀ text, (ss ++ more).head? ≠ some (.token .identifier text)) ∧
      ∀ text, (ss ++ more).head? = some (.token .target text) ↔ colon = true ∧ IsQuoted rest text := by
  cases h with
  | @target rest found mid _ _ _ hcut htail =>
    refine ⟨by simp, fun text => ?_⟩
    rw [isQuoted_iff, hcut]
    simp [eq_comm]
  | unclosed hcut =>
    refine ⟨by simp, fun text => ?_⟩
    rw [isQuoted_iff, hcut]
    simp
  | plain hquote htail =>
    refine ⟨fun text => htail.head_ne (Or.inl rfl) (hmore _ _ (Or.inl rfl)), fun text => ?_⟩
    refine iff_of_false (htail.head_ne (Or.inr rfl) (hmore _ _ (Or.inr rfl))) ?_
    rintro ⟨hcolon, inner, left, rfl, -⟩
    exact hquote hcolon rfl

/-- A colon stands at the end of a name and of the at sign with the name alike. -/
theorem getLast?_at_beq_colon (name : Text) :
    (('@' :: name).getLast? == some ':') = true ↔ name.getLast? = some ':' := by
  cases hlast : name.getLast? with
  | none => simp [List.getLast?_eq_none_iff.mp hlast]
  | some c => simp [List.getLast?_cons, hlast]

/-- What comes after the start of a reference: its name, as long as it can be, and a target exactly if
the name ends with a colon and a quote comes right after it. -/
theorem Phrases.of_referenceStart {source : Text}
    (h : Phrases true none source (x ++ .token .referenceStart ['@'] :: y)) :
    ∃ more, y = Stretch.ofText .identifier ((Stretch.join y).takeWhile Text.isName) ++ more ∧
      (∀ text, more.head? ≠ some (.token .identifier text)) ∧
        ∀ text, more.head? = some (.token .target text) ↔
          ((Stretch.join y).takeWhile Text.isName).getLast? = some ':' ∧
            IsQuoted ((Stretch.join y).dropWhile Text.isName) text := by
  obtain ⟨front, lineStart, here, a, b, ls, after, left, hwalk, hphrase, hleft, rfl, rfl⟩ :=
    h.exists_phrase
  have hstart := hphrase.cases_of_at (u := []) (v := []) hwalk.isBalanced rfl
  obtain ⟨rfl, -⟩ := hstart.resolve_right fun hother => hother.1 rfl
  rw [List.nil_append] at hphrase
  generalize hss : Stretch.token .referenceStart ['@'] :: b = ss at hphrase
  cases hphrase with
  | comment | indent | header | statement | text => cases hss
  | @reference _ _ name rest _ ts _ _ hname hrest _ hattached =>
    obtain ⟨-, rfl⟩ := List.cons.inj hss
    have hjoin : Stretch.join (Stretch.ofText .identifier name ++ ts ++ left) = name ++ rest := by
      rw [Stretch.join_append, Stretch.join_append, Stretch.join_ofText, hleft.join,
        List.append_assoc, hattached.join]
    have hhead := hattached.head_eq_iff fun _ text hkind => hleft.head_ne hkind
    rw [getLast?_at_beq_colon] at hhead
    rw [hjoin, Piece.takeWhile_append_of_stops hname hrest,
      Piece.dropWhile_append_of_stops hname hrest]
    exact ⟨ts ++ left, List.append_assoc .., hhead⟩

end Lexer

/-- References begin exactly where they should: an at sign is the start of one if and only if nothing
hides it, the character before it joins no word to it, and a character of names or a brace comes after
it. Then the name is the longest run of such characters, and a target comes right after it if and only
if it ends with a colon and a quote on one line follows. -/
theorem references_start (source : Text) :
    ∃ ss, Stretch.Tiles source ss (Token.ofText source) ∧
      ∀ before after, source = before ++ '@' :: after →
        ∃ passed s more u v, ss = passed ++ s :: more ∧ s.text = u ++ '@' :: v ∧
          before = Stretch.join passed ++ u ∧ after = v ++ Stretch.join more ∧
          (s = .token .referenceStart ['@'] ↔ ¬Lexer.Hides passed s ∧
            before.getLast?.any Text.joinsWord = false ∧
              after.head?.any (fun c => Text.isName c || c == '{') = true) ∧
          (s = .token .referenceStart ['@'] → ∃ rest,
            more = Stretch.ofText .identifier (after.takeWhile Text.isName) ++ rest ∧
              (∀ text, rest.head? ≠ some (.token .identifier text)) ∧
                ∀ text, rest.head? = some (.token .target text) ↔
                  (after.takeWhile Text.isName).getLast? = some ':' ∧
                    Lexer.IsQuoted (after.dropWhile Text.isName) text) := by
  obtain ⟨ss, hss, htiles⟩ := Lexer.exists_tiling source
  refine ⟨ss, htiles, fun before after hsource => ?_⟩
  have hjoin : before ++ '@' :: after = ss.flatMap Stretch.text := by
    rw [← hsource]
    exact hss.join.symm
  obtain ⟨passed, s, more, u, v, rfl, hs, hpassed, hmore⟩ := exists_of_flatMap_eq_append_cons hjoin
  have hbefore : before = Stretch.join passed ++ u := hpassed
  have hafter : after = v ++ Stretch.join more := hmore
  refine ⟨passed, s, more, u, v, rfl, hs, hbefore, hafter, ?_, ?_⟩
  · have hiff := hss.eq_referenceStart_iff hs
    rwa [Lexer.startsReference_at, Bool.and_eq_true, Bool.not_eq_true', ← hbefore,
      ← hafter] at hiff
  · rintro rfl
    have hnil : u = [] ∧ v = [] := by
      rcases List.append_eq_cons_iff.mp hs.symm with ⟨hu, hv⟩ | ⟨_, -, hu⟩
      · exact ⟨hu, (List.cons.inj hv).2⟩
      · simp at hu
    rw [hnil.2, List.nil_append] at hafter
    rw [hafter]
    exact hss.of_referenceStart

end PromptScript
