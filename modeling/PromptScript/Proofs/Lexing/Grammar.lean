import PromptScript.Document.Draft
import PromptScript.Proofs.Lexing.Cover
import PromptScript.Proofs.Text.Search
import PromptScript.Proofs.Text.Words

/-!
# The grammar of tokens

The tokens of a script are headers of known sections, statements of known keywords with the rest
of their line, fragments of text, and references with their name, their target and a body or an
error; one token for the end comes last.
-/

namespace PromptScript

open Piece (scan isHorizontal)

namespace Text

/-- White space has no lower case. -/
theorem toLower_of_isSpace {c : Char} (h : isSpace c = true) : c.toLower = c := by
  delta Char.toLower
  rw [dif_neg]
  simp only [isSpace, Bool.or_eq_true, Bool.and_eq_true, decide_eq_true_eq, beq_iff_eq] at h
  rintro ⟨hlow, hhigh⟩
  have hlow' : 65 ≤ c.toNat := hlow
  have hhigh' : c.toNat ≤ 90 := hhigh
  omega

end Text

/-- The characters of a word that heads a section are neither white space nor colons. -/
theorem solid_of_mem_sectionWords {word : Text} (h : Text.lower word ∈ Piece.sectionWords) :
    word.all (!Text.isSpace ·) = true ∧ ':' ∉ word := by
  have hwords : Piece.sectionWords.all (·.all fun c => !Text.isSpace c && c != ':') = true := by
    decide
  have hlower : ∀ c ∈ Text.lower word, Text.isSpace c = false ∧ c ≠ ':' := by
    intro c hc
    have hword := List.all_eq_true.mp hwords _ h
    simpa using List.all_eq_true.mp hword c hc
  constructor
  · refine List.all_eq_true.mpr fun c hc => ?_
    cases hspace : Text.isSpace c with
    | false => rfl
    | true =>
      have := (hlower _ (List.mem_map_of_mem hc)).1
      rw [Text.toLower_of_isSpace hspace, hspace] at this
      cases this
  · intro hc
    exact (hlower _ (List.mem_map_of_mem hc)).2 rfl

/-- A word that heads a section, with white space and a colon after it, is a header. -/
theorem ofHeader?_isSome {word space : Text} (h : Text.lower word ∈ Piece.sectionWords)
    (hspace : space.all isHorizontal = true) :
    (SectionKind.ofHeader? (word ++ space ++ [':'])).isSome = true := by
  obtain ⟨hsolid, hcolon⟩ := solid_of_mem_sectionWords h
  have hnotcolon : ':' ∉ word ++ space := by
    intro hmem
    rcases List.mem_append.mp hmem with hmem | hmem
    · exact hcolon hmem
    · have := List.all_eq_true.mp hspace _ hmem
      revert this
      decide
  have hblank := Piece.isBlank_of_isHorizontal hspace
  have htrimmed := Text.trim_of_solid hsolid
  rw [SectionKind.ofHeader?]
  simp only [Text.trimEndChar_append_self fun hlast => hnotcolon (List.mem_of_getLast? hlast),
    Text.trim_append hblank, htrimmed]
  generalize Text.lower word = lowered at h
  revert lowered
  decide

namespace Lexer

/-- A header is a word that heads a section, white space and a colon. -/
theorem header?_eq_some {t text : Text} {qs : List Piece} (h : header? (scan t) = some (text, qs)) :
    ∃ word space, text = word ++ space ++ [':'] ∧ Text.lower word ∈ Piece.sectionWords ∧
      space.all isHorizontal = true := by
  cases hps : scan t with
  | nil =>
    rw [hps] at h
    cases h
  | cons p rest =>
    have hsound : p.Sound := Piece.sound_of_mem_scan (by rw [hps]; exact List.mem_cons_self)
    have hscan : scan t = [p] ++ rest := hps
    have hrest := (Piece.eq_append_of_scan hscan).2
    rw [hps, header?] at h
    split at h
    · rename_i hkind
      rw [hrest, splitSpace_scan] at h
      split at h
      · rename_i space colon after hsplit
        have hspace : (Piece.join rest).takeWhile isHorizontal = space := congrArg Prod.fst hsplit
        split at h
        · rename_i hcolon
          cases h
          refine ⟨p.text, space, by rw [hcolon.2], ?_, ?_⟩
          · have hword := hsound.keyword?_text (by rw [hkind]; decide)
            rw [hkind] at hword
            rcases Piece.keyword?_eq_some hword with ⟨-, hmem⟩ | hmem
            · exact hmem
            · have hnone : Piece.Kind.sectionWord ∉ Piece.statementWords.map Prod.snd := by decide
              exact absurd (List.mem_map_of_mem hmem) hnone
          · rw [← hspace]
            exact List.all_takeWhile
        · cases h
      · cases h
    · cases h

/-- A header stands on one line. -/
theorem not_mem_of_header? {t text : Text} {qs : List Piece}
    (h : header? (scan t) = some (text, qs)) : '\n' ∉ text := by
  obtain ⟨word, space, rfl, hword, hspace⟩ := header?_eq_some h
  have hsolid := (solid_of_mem_sectionWords hword).1
  have hline : '\n' ∉ word := fun hmem => absurd (List.all_eq_true.mp hsolid _ hmem) (by decide)
  simp [hline, Piece.not_mem_newline_of_isHorizontal hspace]

/-- The text of a header is that of a known section. -/
theorem ofHeader?_of_header? {t text : Text} {qs : List Piece}
    (h : header? (scan t) = some (text, qs)) : (SectionKind.ofHeader? text).isSome = true := by
  obtain ⟨word, space, rfl, hword, hspace⟩ := header?_eq_some h
  exact ofHeader?_isSome hword hspace

/-- A statement keyword is one word or two words with white space between them. -/
theorem statement?_shape {ps qs : List Piece} {text : Text} (hsound : ∀ p ∈ ps, p.Sound)
    (h : statement? ps = some (text, qs)) :
    text ∈ ["IF".toList, "ELSE".toList, "END".toList] ∨
      ∃ space, space ≠ [] ∧ space.all isHorizontal = true ∧
        (text = "FOR".toList ++ space ++ "EACH".toList ∨
          text = "CALL".toList ++ space ++ "API".toList ∨
            text = "ON".toList ++ space ++ "ERROR".toList) := by
  unfold statement? at h
  split at h
  · cases h
  · rename_i p rest
    have hp : p.Sound := hsound p List.mem_cons_self
    split at h
    · rename_i hkind
      cases h
      left
      rcases hkind with hkind | hkind | hkind
      · rw [hp.text_of_kind "IF".toList hkind (by decide)]
        decide
      · rw [hp.text_of_kind "ELSE".toList hkind (by decide)]
        decide
      · rw [hp.text_of_kind "END".toList hkind (by decide)]
        decide
    · split at h
      · rename_i second space q after hsecond
        split at h
        · rename_i hkinds
          cases h
          right
          have hq : q.Sound := hsound q (by simp)
          obtain ⟨hne, hspace⟩ := (hsound space (by simp)).of_space hkinds.1
          refine ⟨space.text, hne, hspace, ?_⟩
          have hpair : (p.kind = .forWord ∧ q.kind = .eachWord) ∨
              (p.kind = .callWord ∧ q.kind = .apiWord) ∨ (p.kind = .onWord ∧ q.kind = .errorWord) := by
            rw [hkinds.2]
            unfold secondWord? at hsecond
            split at hsecond <;> simp_all
          rcases hpair with ⟨hfirst, hnext⟩ | ⟨hfirst, hnext⟩ | ⟨hfirst, hnext⟩
          · left
            rw [hp.text_of_kind "FOR".toList hfirst (by decide),
              hq.text_of_kind "EACH".toList hnext (by decide)]
          · right; left
            rw [hp.text_of_kind "CALL".toList hfirst (by decide),
              hq.text_of_kind "API".toList hnext (by decide)]
          · right; right
            rw [hp.text_of_kind "ON".toList hfirst (by decide),
              hq.text_of_kind "ERROR".toList hnext (by decide)]
        · cases h
      · cases h

/-- A statement keyword stands on one line. -/
theorem not_mem_of_statement? {t text : Text} {qs : List Piece}
    (h : statement? (scan t) = some (text, qs)) : '\n' ∉ text := by
  rcases statement?_shape (fun p hp => Piece.sound_of_mem_scan hp) h with hmem | ⟨space, -, hspace, htext⟩
  · have hone : ∀ word ∈ ["IF".toList, "ELSE".toList, "END".toList], '\n' ∉ word := by decide
    exact hone text hmem
  · have hline := Piece.not_mem_newline_of_isHorizontal hspace
    rcases htext with rfl | rfl | rfl
    all_goals simp [hline]

/-- A statement keyword stands for a statement. -/
theorem lookup_of_statement? {t text : Text} {qs : List Piece}
    (h : statement? (scan t) = some (text, qs)) :
    (Draft.statementWords.lookup (Text.words text)).isSome = true := by
  have hshape := statement?_shape (fun p hp => Piece.sound_of_mem_scan hp) h
  rcases hshape with hmem | ⟨space, hne, hspace, htext⟩
  · have hone : ∀ word ∈ ["IF".toList, "ELSE".toList, "END".toList],
        (Draft.statementWords.lookup (Text.words word)).isSome = true := by decide
    exact hone text hmem
  · have htwo {a b : Text} (ha : a ≠ [] ∧ a.all (!Text.isSpace ·) = true)
        (hb : b ≠ [] ∧ b.all (!Text.isSpace ·) = true) : Text.words (a ++ space ++ b) = [a, b] :=
      Text.words_append_append ha.1 ha.2 hne (Piece.isBlank_of_isHorizontal hspace) hb.1 hb.2
    rcases htext with rfl | rfl | rfl
    all_goals
      rw [htwo (by decide) (by decide)]
      decide

end Lexer

namespace Token

/-- The tokens of a body inside so many braces, through the brace that closes the first of them. -/
inductive Body : Nat → List Token → Prop
  | close {t : Token} (ht : t.kind = .braceClose) : Body 1 [t]
  | leave {depth : Nat} {t : Token} {rest : List Token} (ht : t.kind = .braceClose)
      (h : Body (depth + 1) rest) : Body (depth + 2) (t :: rest)
  | enter {depth : Nat} {t : Token} {rest : List Token} (ht : t.kind = .braceOpen)
      (h : Body (depth + 1) rest) : Body depth (t :: rest)
  | text {depth : Nat} {t : Token} {rest : List Token} (ht : t.kind = .text)
      (h : Body depth rest) : Body depth (t :: rest)

/-- The tokens past the name and the target of a reference: none, one for an error, or a body in
braces. -/
inductive Tail : List Token → Prop
  | none : Tail []
  | error {t : Token} (ht : t.kind = .error) : Tail [t]
  | braced {t : Token} {inner : List Token} (ht : t.kind = .braceOpen) (h : Body 1 inner) :
      Tail (t :: inner)

/-- The token past the keyword of a statement, given the tokens after it: text to the end of its
line, or nothing if the script ends there. -/
def IsRestOfLine (line : Option Token) (after : List Token) : Prop :=
  match line with
  | some t =>
    t.kind = .text ∧ '\n' ∉ t.text.dropLast ∧
      (t.endsLine = true ∨ after.head?.map (·.kind) = some .eof)
  | none => after.head?.map (·.kind) = some .eof

/-- The lists of tokens that scripts have. -/
inductive Grammar : List Token → Prop
  | eof {t : Token} (ht : t.kind = .eof) : Grammar [t]
  | header {t : Token} {rest : List Token} (ht : t.kind = .sectionKeyword)
      (hknown : (SectionKind.ofHeader? t.text).isSome = true) (h : Grammar rest) :
      Grammar (t :: rest)
  | statement {t : Token} {line : Option Token} {rest : List Token}
      (ht : t.kind = .statementKeyword)
      (hknown : (Draft.statementWords.lookup (Text.words t.text)).isSome = true)
      (hline : IsRestOfLine line rest) (h : Grammar rest) : Grammar (t :: (line.toList ++ rest))
  | text {t : Token} {rest : List Token} (ht : t.kind = .text) (h : Grammar rest) :
      Grammar (t :: rest)
  | reference {t : Token} {name target : Option Token} {tail rest : List Token}
      (ht : t.kind = .referenceStart) (hname : ∀ n ∈ name, n.kind = .identifier)
      (htarget : ∀ q ∈ target, q.kind = .target) (htail : Tail tail) (h : Grammar rest) :
      Grammar (t :: (name.toList ++ (target.toList ++ (tail ++ rest))))

end Token

namespace Lexer

variable {rest after : Text} {ss : List Stretch}

/-- The tokens of a body are a body of the same depth, wherever it stands. -/
theorem Body.grammar {depth : Nat} (h : Body depth rest ss after) (hdepth : 1 ≤ depth)
    (p : Position) : Token.Body depth (Stretch.tokens p ss) := by
  induction h generalizing p with
  | @close depth rest hle =>
    obtain rfl : depth = 1 := by omega
    exact .close rfl
  | @leave depth rest after ss hlt _ ih =>
    obtain ⟨d, rfl⟩ : ∃ d, depth = d + 2 := ⟨depth - 2, by omega⟩
    exact .leave rfl (ih (by omega) _)
  | enter _ ih => exact .enter rfl (ih (by omega) _)
  | fragment _ _ _ ih => exact .text rfl (ih hdepth _)

/-- White space before a brace gives no token and moves what comes after it. -/
theorem tokens_ofGap (p : Position) (space : Text) (ss : List Stretch) :
    Stretch.tokens p (Stretch.ofGap space ++ ss) = Stretch.tokens (p.advance space) ss := by
  cases space <;> rfl

/-- The tokens past a target are what the grammar has there: a body, an error or nothing. -/
theorem Tail.grammar {body : Option Text} (h : Tail rest ss body after) (p : Position) :
    Token.Tail (Stretch.tokens p ss) := by
  cases h with
  | bare => exact .none
  | unclosed =>
    rw [tokens_ofGap]
    exact .error rfl
  | braced _ hbody _ =>
    rw [tokens_ofGap]
    exact .braced rfl (hbody.grammar (Nat.le_refl 1) _)

/-- What is attached to a name is at most a target and what follows it. -/
theorem Attachment.grammar {colon : Bool} {quoted body : Option Text}
    (h : Attachment colon rest ss quoted body after) (p : Position) :
    ∃ (target : Option Token) (tail : List Token), (∀ q ∈ target, q.kind = .target) ∧
      Token.Tail tail ∧ Stretch.tokens p ss = target.toList ++ tail := by
  cases h with
  | target _ htail => exact ⟨some _, _, by simp, htail.grammar _, rfl⟩
  | unclosed => exact ⟨none, _, by simp, .error rfl, rfl⟩
  | plain _ htail => exact ⟨none, _, by simp, htail.grammar p, rfl⟩

/-- Nothing but the end comes after the end of a text. -/
theorem Phrases.eq_nil {lineStart : Bool} {before : Option Char}
    (h : Phrases lineStart before [] ss) : ss = [] := by
  cases h with
  | nil => rfl
  | cons h _ => exact absurd h.length_lt (Nat.not_lt_zero _)

/-- The tokens of phrases in a row, with one for the end, are in the grammar. -/
theorem Phrases.grammar {lineStart : Bool} {before : Option Char}
    (h : Phrases lineStart before rest ss) (p : Position) {last : Token} (hlast : last.kind = .eof) :
    Token.Grammar (Stretch.tokens p ss ++ [last]) := by
  induction h generalizing p with
  | nil => exact .eof hlast
  | @cons lineStart ls before rest after ss ts h hrest ih =>
    rw [Stretch.tokens_append, List.append_assoc]
    have hmore := ih (p.advance (Stretch.join ss))
    cases h with
    | comment => exact hmore
    | indent => exact .text rfl hmore
    | header h => exact .header rfl (ofHeader?_of_header? h) hmore
    | @statement before rest text mid h =>
      cases hline : (Text.cutLine mid).1 with
      | nil =>
        have hempty : (Text.cutLine mid).2 = [] := by
          cases mid with
          | nil => rfl
          | cons c mid =>
            rw [Text.cutLine] at hline
            split at hline <;> cases hline
        rw [hempty] at hrest
        rw [hrest.eq_nil] at hmore ⊢
        have hbare : Token.IsRestOfLine none [last] := congrArg some hlast
        exact .statement rfl (lookup_of_statement? h) hbare hmore
      | cons c line =>
        have hends := Text.endsLine_cutLine mid
        have hbreak := Text.not_mem_dropLast_cutLine mid
        rw [hline] at hends hbreak hmore
        have hrestOfLine (q : Position) :
            Token.IsRestOfLine (some ⟨.text, c :: line, p.advance text⟩)
              (Stretch.tokens q ts ++ [last]) := by
          refine ⟨rfl, hbreak, hends.imp id fun hempty => ?_⟩
          rw [hempty] at hrest
          rw [hrest.eq_nil]
          exact congrArg some hlast
        exact .statement rfl (lookup_of_statement? h) (hrestOfLine _) hmore
    | text => exact .text rfl hmore
    | @reference _ before name rest after ss _ _ _ _ _ h =>
      obtain ⟨target, tail, htarget, htail, hattached⟩ :=
        h.grammar ((p.advance ['@']).advance name)
      have hname : Stretch.tokens (p.advance ['@']) (Stretch.ofText .identifier name ++ ss) =
          (if name = [] then none else some ⟨.identifier, name, p.advance ['@']⟩ : Option Token).toList
            ++ (target.toList ++ tail) := by
        rw [← hattached]
        cases name <;> rfl
      rw [Stretch.tokens, hname]
      simp only [List.cons_append, List.append_assoc]
      refine .reference rfl ?_ htarget htail hmore
      intro n hn
      split at hn
      · cases hn
      · cases hn
        rfl

end Lexer

/-- The tokens of a script are in the grammar. -/
theorem Token.grammar_ofText (source : Text) : Token.Grammar (Token.ofText source) := by
  obtain ⟨ss, h⟩ := Lexer.exists_phrases true none source
  have htokens : Token.ofText source = _ := h.tokens .start
  rw [htokens]
  exact h.grammar .start rfl

end PromptScript
