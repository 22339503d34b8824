import PromptScript.Proofs.Parsing.Agreement

/-!
# What the texts of tokens are like

A fragment of text never goes past a line break, the name of a reference is made of name
characters, and its target stands in quotes on one line. The items of a script have such texts.
-/

namespace PromptScript

open Piece (scan isHorizontal)

namespace Text

/-- A text without line breaks before one that has none but its last character. -/
theorem not_mem_dropLast_append {a b : Text} (ha : '\n' ∉ a) (hb : '\n' ∉ b.dropLast) :
    '\n' ∉ (a ++ b).dropLast := by
  rw [List.dropLast_append]
  split
  · exact fun h => ha (List.dropLast_subset _ h)
  · intro h
    rcases List.mem_append.mp h with h | h
    · exact ha h
    · exact hb h

/-- A fragment of a body never goes past a line break. -/
theorem not_mem_dropLast_cutBody (t : Text) : '\n' ∉ (cutBody t).1.dropLast := by
  induction t with
  | nil => simp [cutBody]
  | cons c t ih =>
    rw [cutBody]
    split
    · simp
    · split
      · simp
      · rename_i hc
        exact not_mem_dropLast_append (a := [c]) (by simpa using Ne.symm hc) ih

/-- What is cut through a quote holds no other quote and no line break. -/
theorem cutQuote?_eq_some {t s rest : Text} (h : cutQuote? t = some (s, rest)) :
    ∃ q, s = q ++ ['"'] ∧ '"' ∉ q ∧ '\n' ∉ q := by
  induction t generalizing s with
  | nil => cases h
  | cons c t ih =>
    rw [cutQuote?] at h
    split at h
    · cases h
    · rename_i hline
      split at h
      · rename_i hquote
        cases h
        exact ⟨[], by rw [hquote]; rfl, by simp, by simp⟩
      · rename_i hquote
        obtain ⟨parts, hparts, heq⟩ := Option.map_eq_some_iff.mp h
        cases heq
        obtain ⟨q, hq, hnoquote, hnoline⟩ := ih hparts
        exact ⟨c :: q, by rw [hq]; rfl, by simp [hnoquote, Ne.symm hquote],
          by simp [hnoline, Ne.symm hline]⟩

end Text

/-- What the text of a token of a kind is like. -/
def Token.Kind.Holds : Token.Kind → Text → Prop
  | .text, t => '\n' ∉ t.dropLast
  | .identifier, t => t.all Text.isName = true
  | .target, t => ∃ q, t = '"' :: (q ++ ['"']) ∧ '"' ∉ q ∧ '\n' ∉ q
  | _, _ => True

/-- Whether the texts of stretches are what their kinds hold. -/
def Stretch.AllHold (ss : List Stretch) : Prop :=
  ∀ kind text, .token kind text ∈ ss → kind.Holds text

namespace Stretch.AllHold

variable {ss ts : List Stretch} {kind : Token.Kind} {text : Text}

/-- Of no stretches there is nothing to hold. -/
theorem nil : AllHold [] := fun _ _ h => by cases h

/-- A token whose text is what its kind holds can go before such stretches. -/
theorem cons (h : kind.Holds text) (hss : AllHold ss) : AllHold (.token kind text :: ss) := by
  intro k t hmem
  rcases List.mem_cons.mp hmem with heq | hmem
  · cases heq
    exact h
  · exact hss k t hmem

/-- Stretches in a row hold what they should if both parts do. -/
theorem append (hss : AllHold ss) (hts : AllHold ts) : AllHold (ss ++ ts) := fun k t hmem =>
  (List.mem_append.mp hmem).elim (hss k t) (hts k t)

/-- The token of a text holds what its kind asks of the text. -/
theorem ofText (h : kind.Holds text) : AllHold (Stretch.ofText kind text) := by
  unfold Stretch.ofText
  split
  · exact nil
  · exact cons h nil

/-- A gap is no token, so nothing is asked of it. -/
theorem ofGap (space : Text) : AllHold (Stretch.ofGap space) := by
  unfold Stretch.ofGap
  split
  · exact nil
  · intro k t hmem
    cases List.mem_singleton.mp hmem

/-- The tokens of stretches have the texts of the stretches. -/
theorem holds_of_mem (h : AllHold ss) {p : Position} {t : Token} (ht : t ∈ tokens p ss) :
    t.kind.Holds t.text :=
  h t.kind t.text (mem_of_mem_tokens ht)

end Stretch.AllHold

namespace Lexer

open Stretch (AllHold)

variable {lineStart ls : Bool} {before : Option Char} {rest after : Text} {ss : List Stretch}

/-- A fragment of text never goes past a line break. -/
theorem not_mem_dropLast_splitText (before : Option Char) {ps : List Piece}
    (hsound : ∀ p ∈ ps, p.Sound) : '\n' ∉ (splitText before ps).1.dropLast := by
  fun_induction splitText before ps with
  | case1 => simp
  | case2 => simp
  | case3 before p rest _ hkind =>
    rw [(hsound p List.mem_cons_self).eq_newline hkind]
    simp [Piece.lineBreak]
  | case4 before p rest _ hkind ih =>
    exact Text.not_mem_dropLast_append ((hsound p List.mem_cons_self).not_mem_newline hkind)
      (ih fun q hq => hsound q (List.mem_cons_of_mem p hq))

/-- The tokens of a body hold what their kinds ask. -/
theorem Body.allHold {depth : Nat} (h : Body depth rest ss after) : AllHold ss := by
  induction h with
  | close => exact .cons trivial .nil
  | leave _ _ ih | enter _ ih => exact .cons trivial ih
  | @fragment depth rest text mid after ss _ hcut _ ih =>
    have htext := Text.not_mem_dropLast_cutBody rest
    rw [hcut] at htext
    exact .cons htext ih

/-- The tokens that follow a target hold what their kinds ask. -/
theorem Tail.allHold {body : Option Text} (h : Tail rest ss body after) : AllHold ss := by
  cases h with
  | bare => exact .nil
  | unclosed => exact .append (.ofGap _) (.cons trivial .nil)
  | braced _ hbody _ => exact .append (.ofGap _) (.cons trivial hbody.allHold)

/-- The tokens that follow a name hold what their kinds ask. -/
theorem Attachment.allHold {colon : Bool} {target body : Option Text}
    (h : Attachment colon rest ss target body after) : AllHold ss := by
  cases h with
  | target hcut htail =>
    obtain ⟨q, rfl, hq⟩ := Text.cutQuote?_eq_some hcut
    exact .cons ⟨q, rfl, hq⟩ htail.allHold
  | unclosed => exact .cons trivial .nil
  | plain _ htail => exact htail.allHold

/-- The tokens of a phrase hold what their kinds ask. -/
theorem Phrase.allHold (h : Phrase lineStart before rest ss ls after) : AllHold ss := by
  cases h with
  | comment =>
    intro k t hmem
    cases List.mem_singleton.mp hmem
  | @indent _ space _ _ hspace =>
    have hline := Piece.not_mem_newline_of_isHorizontal hspace
    exact .cons (fun hmem => hline (List.dropLast_subset _ hmem)) .nil
  | header => exact .cons trivial .nil
  | @statement before rest text mid =>
    exact .cons trivial (.ofText (Text.not_mem_dropLast_cutLine mid))
  | reference hname _ _ h => exact .cons trivial (.append (.ofText hname) h.allHold)
  | @text _ before rest text _ _ _ _ h =>
    have htext := not_mem_dropLast_splitText before
      fun p (hp : p ∈ scan rest) => Piece.sound_of_mem_scan hp
    rw [h] at htext
    exact .cons htext .nil

/-- The tokens of a script hold what their kinds ask. -/
theorem Phrases.allHold (h : Phrases lineStart before rest ss) : AllHold ss := by
  induction h with
  | nil => exact .nil
  | cons h _ ih => exact .append h.allHold ih

end Lexer

/-- The tokens of a script have texts as their kinds hold them. -/
theorem Token.holds_ofText (source : Text) : ∀ t ∈ Token.ofText source, t.kind.Holds t.text := by
  obtain ⟨ss, hss⟩ := Lexer.exists_phrases true none source
  have htokens : Token.ofText source = _ := hss.tokens .start
  intro t ht
  rw [htokens] at ht
  rcases List.mem_append.mp ht with ht | ht
  · exact hss.allHold.holds_of_mem ht
  · rw [List.mem_singleton.mp ht]
    trivial

namespace Item

/-- Whether the texts of an item are what the kinds of its tokens hold. -/
def AllHold : Item → Prop
  | .statement _ rest => ∀ t ∈ rest, Token.Kind.text.Holds t.text
  | .text t => Token.Kind.text.Holds t.text
  | .reference _ name target _ =>
    (∀ t ∈ name, Token.Kind.identifier.Holds t.text) ∧
      ∀ t ∈ target, Token.Kind.target.Holds t.text
  | _ => True

variable {t : Token} {tokens rest : List Token}

/-- A token that is taken is of the kind and stands in front. -/
theorem mem_takeKind {kind : Token.Kind} (h : t ∈ (takeKind kind tokens).1) :
    t.kind = kind ∧ t ∈ tokens := by
  cases tokens with
  | nil => cases h
  | cons x tokens =>
    rw [takeKind] at h
    split at h
    · rename_i hx
      cases h
      exact ⟨hx, List.mem_cons_self⟩
    · cases h

/-- What is left after taking a token is an end of the tokens. -/
theorem takeKind_suffix (kind : Token.Kind) (tokens : List Token) :
    (takeKind kind tokens).2 <:+ tokens := by
  cases tokens with
  | nil => exact List.suffix_rfl
  | cons x tokens =>
    rw [takeKind]
    split
    · exact List.suffix_cons ..
    · exact List.suffix_rfl

/-- What is left after a body is an end of the tokens. -/
theorem splitBraced_suffix (depth : Nat) (tokens : List Token) :
    (splitBraced depth tokens).2.2 <:+ tokens := by
  induction tokens generalizing depth with
  | nil => exact List.suffix_rfl
  | cons x tokens ih =>
    rw [splitBraced]
    split
    · exact List.suffix_cons ..
    · exact (ih _).trans (List.suffix_cons ..)

/-- What is left after skipping is an end of the tokens. -/
theorem splitSkipped_suffix (tokens : List Token) : (splitSkipped tokens).2 <:+ tokens := by
  induction tokens with
  | nil => exact List.suffix_rfl
  | cons x tokens ih =>
    rw [splitSkipped]
    split
    · exact List.suffix_rfl
    · split
      · exact List.suffix_cons ..
      · exact ih.trans (List.suffix_cons ..)

/-- What is left after the tail of a reference is an end of the tokens. -/
theorem splitTail_suffix (tokens : List Token) : (splitTail tokens).2 <:+ tokens := by
  cases tokens with
  | nil => exact List.suffix_rfl
  | cons x tokens =>
    rw [splitTail]
    split
    · exact (splitBraced_suffix 1 tokens).trans (List.suffix_cons ..)
    · split
      · exact (List.dropWhile_suffix _).trans (List.suffix_cons ..)
      · exact List.suffix_rfl

/-- What is left after a stray token is an end of the tokens. -/
theorem strayItem_suffix (t : Token) (rest : List Token) : (strayItem t rest).2 <:+ rest := by
  rw [strayItem]
  split
  · exact List.suffix_rfl
  · exact splitSkipped_suffix rest

/-- The tokens that an item leaves are at the end of those that came. -/
theorem first_suffix (t : Token) (rest : List Token) : (first t rest).2 <:+ rest := by
  unfold first
  split
  · split
    · exact List.suffix_rfl
    · exact strayItem_suffix t rest
  · exact takeKind_suffix ..
  · exact List.suffix_rfl
  · exact (splitTail_suffix _).trans ((takeKind_suffix ..).trans (takeKind_suffix ..))
  · exact strayItem_suffix t rest

/-- Nothing is asked of a stray token. -/
theorem strayItem_allHold (t : Token) (rest : List Token) : (strayItem t rest).1.AllHold := by
  rw [strayItem]
  split <;> trivial

/-- The first item of tokens that hold what their kinds ask does so too. -/
theorem first_allHold (h : ∀ x ∈ t :: rest, x.kind.Holds x.text) : (first t rest).1.AllHold := by
  have htake {kind : Token.Kind} {tokens : List Token} (hsuffix : tokens <:+ t :: rest) :
      ∀ x ∈ (takeKind kind tokens).1, kind.Holds x.text := by
    intro x hx
    obtain ⟨hkind, hmem⟩ := mem_takeKind hx
    rw [← hkind]
    exact h x (hsuffix.subset hmem)
  have hrest : rest <:+ t :: rest := List.suffix_cons t rest
  unfold first
  split
  · split
    · trivial
    · exact strayItem_allHold t rest
  · exact htake hrest
  · rename_i hkind
    have ht := h t List.mem_cons_self
    rw [hkind] at ht
    exact ht
  · exact ⟨htake hrest, htake ((takeKind_suffix ..).trans hrest)⟩
  · exact strayItem_allHold t rest

/-- The items of tokens that hold what their kinds ask do so too. -/
theorem allHold_ofTokens (h : ∀ t ∈ tokens, t.kind.Holds t.text) :
    ∀ item ∈ ofTokens tokens, item.AllHold := by
  fun_induction ofTokens tokens with
  | case1 => simp
  | case2 => simp
  | case3 t rest _ ih =>
    intro item hitem
    rcases List.mem_cons.mp hitem with rfl | hitem
    · exact first_allHold h
    · exact ih (fun x hx => h x (List.mem_cons_of_mem t ((first_suffix t rest).subset hx))) item hitem

end Item

end PromptScript
