import Mathlib.Data.List.Chain
import PromptScript.Proofs.Lexing.Tiling
import PromptScript.Proofs.Parsing.Steps
import PromptScript.Proofs.Parsing.Texts

/-!
# Where lines begin

Only text ends a line. A fragment of text stands where a line begins exactly if the token before it
ends a line, and of two fragments in a row the first one always does: nothing but a comment can come
between them, and a comment takes up whole lines.
-/

namespace PromptScript

open Piece (scan isHorizontal)

/-- Whether a stretch is that of a text, if it is of a token and ends a line. -/
def Stretch.EndsLineAsText : Stretch → Prop
  | .token kind text => Text.endsLine text = true → kind = .text
  | _ => True

namespace Lexer

open Stretch (EndsLineAsText)

variable {lineStart ls : Bool} {before : Option Char} {rest after : Text} {ss : List Stretch}

/-- Text without a line break does not end a line. -/
theorem endsLineAsText_of_not_mem {kind : Token.Kind} {text : Text} (h : '\n' ∉ text) :
    (Stretch.token kind text).EndsLineAsText := by
  intro hends
  have hlast : text.getLast? = some '\n' := by simpa [Text.endsLine] using hends
  exact absurd (List.mem_of_getLast? hlast) h

/-- In a body only text ends a line. -/
theorem Body.endsLineAsText {depth : Nat} (h : Body depth rest ss after) :
    ∀ s ∈ ss, s.EndsLineAsText := by
  have hbrace {kind : Token.Kind} {c : Char} (hc : c ≠ '\n') :
      (Stretch.token kind [c]).EndsLineAsText :=
    endsLineAsText_of_not_mem (by simpa using hc.symm)
  induction h with
  | close => exact List.forall_mem_singleton.mpr (hbrace (by decide))
  | leave _ _ ih | enter _ ih => exact List.forall_mem_cons.mpr ⟨hbrace (by decide), ih⟩
  | fragment _ _ _ ih => exact List.forall_mem_cons.mpr ⟨fun _ => rfl, ih⟩

/-- A gap ends no line. -/
theorem endsLineAsText_ofGap (space : Text) : ∀ s ∈ Stretch.ofGap space, s.EndsLineAsText := by
  unfold Stretch.ofGap
  split
  · simp
  · exact List.forall_mem_singleton.mpr trivial

/-- Of what follows a target only text ends a line. -/
theorem Tail.endsLineAsText {body : Option Text} (h : Tail rest ss body after) :
    ∀ s ∈ ss, s.EndsLineAsText := by
  cases h with
  | bare => simp
  | unclosed =>
    refine List.forall_mem_append.mpr ⟨endsLineAsText_ofGap _, List.forall_mem_singleton.mpr ?_⟩
    exact endsLineAsText_of_not_mem (by decide)
  | braced _ hbody _ =>
    refine List.forall_mem_append.mpr ⟨endsLineAsText_ofGap _, List.forall_mem_cons.mpr ⟨?_, ?_⟩⟩
    · exact endsLineAsText_of_not_mem (by decide)
    · exact hbody.endsLineAsText

/-- Of what follows a name only text ends a line. -/
theorem Attachment.endsLineAsText {colon : Bool} {target body : Option Text}
    (h : Attachment colon rest ss target body after) : ∀ s ∈ ss, s.EndsLineAsText := by
  cases h with
  | target hcut htail =>
    obtain ⟨q, rfl, -, hline⟩ := Text.cutQuote?_eq_some hcut
    refine List.forall_mem_cons.mpr ⟨endsLineAsText_of_not_mem ?_, htail.endsLineAsText⟩
    simpa using hline
  | unclosed => exact List.forall_mem_singleton.mpr (endsLineAsText_of_not_mem (by decide))
  | plain _ htail => exact htail.endsLineAsText

/-- A text that may be empty ends a line only if its token does. -/
theorem endsLineAsText_ofText {kind : Token.Kind} {text : Text}
    (h : (Stretch.token kind text).EndsLineAsText) :
    ∀ s ∈ Stretch.ofText kind text, s.EndsLineAsText := by
  unfold Stretch.ofText
  split
  · simp
  · exact List.forall_mem_singleton.mpr h

/-- In a phrase only text ends a line. -/
theorem Phrase.endsLineAsText (h : Phrase lineStart before rest ss ls after) :
    ∀ s ∈ ss, s.EndsLineAsText := by
  cases h with
  | comment => exact List.forall_mem_singleton.mpr trivial
  | indent => exact List.forall_mem_singleton.mpr fun _ => rfl
  | header h =>
    exact List.forall_mem_singleton.mpr (endsLineAsText_of_not_mem (not_mem_of_header? h))
  | statement h =>
    refine List.forall_mem_cons.mpr ⟨endsLineAsText_of_not_mem (not_mem_of_statement? h), ?_⟩
    exact endsLineAsText_ofText fun _ => rfl
  | reference hname _ _ h =>
    refine List.forall_mem_cons.mpr ⟨endsLineAsText_of_not_mem (by decide), ?_⟩
    refine List.forall_mem_append.mpr ⟨?_, h.endsLineAsText⟩
    exact endsLineAsText_ofText (endsLineAsText_of_not_mem (Text.not_mem_of_isName hname))
  | text => exact List.forall_mem_singleton.mpr fun _ => rfl

/-- In a script only text ends a line. -/
theorem Phrases.endsLineAsText (h : Phrases lineStart before rest ss) :
    ∀ s ∈ ss, s.EndsLineAsText := by
  induction h with
  | nil => simp
  | cons h _ ih => exact List.forall_mem_append.mpr ⟨h.endsLineAsText, ih⟩

end Lexer

/-- A text leads to the first column exactly if it is empty or ends a line. -/
theorem Position.column_after_eq_one_iff (passed : Text) :
    (Position.after passed).column = 1 ↔ passed = [] ∨ Text.endsLine passed = true := by
  induction passed using List.reverseRecOn with
  | nil => simp [Position.after]
  | append_singleton passed c =>
    by_cases hc : c = '\n' <;> simp [Position.after, Text.endsLine, hc]

namespace Stretch

variable {ss pre post : List Stretch}

/-- What comes before a stretch ends a line only if its last token does. -/
theorem endsLine_of_join {p : Position}
    (hfits : ∀ a s b, ss = a ++ s :: b → s.Fits a b) (hss : ss = pre ++ post)
    (hline : join pre = [] ∨ Text.endsLine (join pre) = true) :
    ∀ x ∈ (tokens p pre).getLast?, x.endsLine = true := by
  induction pre using List.reverseRecOn generalizing post with
  | nil => simp [tokens]
  | append_singleton pre s ih =>
    rw [List.append_assoc, List.singleton_append] at hss
    have hfit := hfits pre s post hss
    rw [join_append, join_cons, join_nil, List.append_nil] at hline
    cases s with
    | token kind text =>
      simp only [Stretch.text] at hline
      have hne : text ≠ [] := hfit.2
      have hends : Text.endsLine text = true := by
        rcases hline with hnil | hends
        · exact absurd (List.append_eq_nil_iff.mp hnil).2 hne
        · rwa [Text.endsLine_append hne] at hends
      rw [tokens_append]
      intro x hx
      rw [tokens, tokens, List.getLast?_concat] at hx
      cases hx
      exact hends
    | comment line =>
      have htokens : tokens p (pre ++ [comment line]) = tokens p pre := by
        rw [tokens_append]
        exact List.append_nil _
      rw [htokens]
      exact ih hss hfit.1
    | gap space =>
      simp only [Stretch.text] at hline
      obtain ⟨hne, hspace, -⟩ := hfit
      rcases hline with hnil | hends
      · exact absurd (List.append_eq_nil_iff.mp hnil).2 hne
      · have hlast : space.getLast? = some '\n' := by
          rw [Text.endsLine_append hne] at hends
          simpa [Text.endsLine] using hends
        exact absurd (List.mem_of_getLast? hlast) (Piece.not_mem_newline_of_isHorizontal hspace)

/-- A fragment of text stands where a line begins exactly if the token before it ends a line. -/
theorem column_eq_one_iff {p : Position} {text : Text}
    (hfits : ∀ a s b, ss = a ++ s :: b → s.Fits a b) (hss : ss = pre ++ .token .text text :: post) :
    (Position.after (join pre)).column = 1 ↔ ∀ x ∈ (tokens p pre).getLast?, x.endsLine = true := by
  rw [Position.column_after_eq_one_iff]
  refine ⟨endsLine_of_join hfits hss, fun hlast => ?_⟩
  obtain ⟨-, htext⟩ := hfits pre _ post hss
  rcases List.eq_nil_or_concat' pre with rfl | ⟨init, s, rfl⟩
  · exact Or.inl rfl
  · right
    rw [List.append_assoc, List.singleton_append] at hss
    have hfit := hfits init s _ hss
    rw [join_append, join_cons, join_nil, List.append_nil]
    cases s with
    | token kind t =>
      rw [Stretch.text, Text.endsLine_append hfit.2]
      refine hlast ⟨kind, t, p.advance (join init)⟩ ?_
      rw [tokens_append]
      exact List.getLast?_concat
    | comment line =>
      -- the text after the comment is not empty, so the comment has its line break
      have hends : Text.endsLine line = true := by
        refine hfit.2.2.resolve_right fun hnil => ?_
        exact htext (List.append_eq_nil_iff.mp hnil).1
      have hne : line ≠ [] := by
        rintro rfl
        cases hends
      rwa [Stretch.text, Text.endsLine_append hne]
    | gap space =>
      obtain ⟨-, -, -, kind, hhead, hkind⟩ := hfit
      cases hhead
      exact absurd hkind (by decide)

end Stretch

/-- A fragment of a body runs to the end of its line, to a brace or to the end of the script. -/
theorem Text.cutBody_stops (t : Text) : endsLine (cutBody t).1 = true ∨ (cutBody t).2 = [] ∨
    ∃ c rest, (cutBody t).2 = c :: rest ∧ (c = '{' ∨ c = '}') := by
  induction t with
  | nil => exact Or.inr (Or.inl rfl)
  | cons c t ih =>
    rw [cutBody]
    split
    · rename_i hc
      exact Or.inr (Or.inr ⟨c, t, rfl, hc⟩)
    · split
      · rename_i hc
        subst hc
        exact Or.inl rfl
      · refine ih.imp_left fun hends => ?_
        have hne : (cutBody t).1 ≠ [] := by
          intro hnil
          rw [hnil] at hends
          cases hends
        exact (endsLine_append hne : endsLine ([c] ++ _) = _).trans hends

/-- Of two tokens in a row, whether the first one ends its line if both are text. -/
def Token.BreaksBefore (x y : Token) : Prop :=
  x.kind = .text → y.kind = .text → x.endsLine = true

/-- Whether fragments in a row break lines between them, and the last token is no text. -/
def Token.SealsText (tokens : List Token) : Prop :=
  tokens.IsChain BreaksBefore ∧ ∀ x ∈ tokens.getLast?, x.kind ≠ .text

/-- A token that is no text comes before any others. -/
theorem Token.SealsText.cons {t : Token} {tokens : List Token} (ht : t.kind ≠ .text)
    (h : SealsText tokens) : SealsText (t :: tokens) := by
  refine ⟨.cons h.1 fun y _ hkind => absurd hkind ht, fun x hx => ?_⟩
  rw [List.getLast?_cons] at hx
  cases hlast : tokens.getLast? with
  | none =>
    rw [hlast] at hx
    cases hx
    exact ht
  | some y =>
    rw [hlast] at hx
    cases hx
    exact h.2 _ hlast

namespace Lexer

variable {lineStart ls : Bool} {before : Option Char} {rest after : Text} {ss : List Stretch}

/-- A body that goes on with a brace begins with a token of that brace. -/
theorem Body.head_kind {depth : Nat} (h : Body depth rest ss after) {c : Char} {more : Text}
    (hrest : rest = c :: more) (hc : c = '{' ∨ c = '}') (p : Position) :
    ∀ y ∈ (Stretch.tokens p ss).head?, y.kind ≠ .text := by
  cases h with
  | close => simp [Stretch.tokens]
  | leave => simp [Stretch.tokens]
  | enter => simp [Stretch.tokens]
  | fragment hne hcut =>
    rw [hrest, Text.cutBody, if_pos hc] at hcut
    cases hcut
    exact absurd rfl hne

/-- In a body a text token before another one ends its line. -/
theorem Body.sealsText {depth : Nat} (h : Body depth rest ss after) (p : Position) :
    Token.SealsText (Stretch.tokens p ss) := by
  refine ⟨?_, ?_⟩
  · induction h generalizing p with
    | close => exact .singleton _
    | leave _ _ ih | enter _ ih => exact .cons (ih _) fun y _ hx => by cases hx
    | @fragment depth rest text mid after ss _ hcut hbody ih =>
      refine .cons (ih _) fun y hy _ hkind => ?_
      have hstops := Text.cutBody_stops rest
      rw [hcut] at hstops
      rcases hstops with hends | hnil | ⟨c, more, hmid, hc⟩
      · exact hends
      · simp only at hnil
        subst hnil
        obtain ⟨inner, hclosing, -⟩ := hbody.cut
        cases hclosing
      · exact absurd hkind (hbody.head_kind hmid hc _ y hy)
  · obtain ⟨init, rfl⟩ := h.last
    rw [Stretch.tokens_append, Stretch.tokens, Stretch.tokens, List.getLast?_concat]
    rintro x ⟨⟩
    simp

/-- Without tokens there is no text to go on with. -/
theorem sealsText_nil : Token.SealsText [] :=
  ⟨.nil, by simp⟩

/-- In what follows a target a text token before another one ends its line. -/
theorem Tail.sealsText {body : Option Text} (h : Tail rest ss body after) (p : Position) :
    Token.SealsText (Stretch.tokens p ss) := by
  cases h with
  | bare => exact sealsText_nil
  | unclosed =>
    rw [tokens_ofGap]
    exact sealsText_nil.cons (by simp)
  | braced _ hbody _ =>
    rw [tokens_ofGap]
    exact (hbody.sealsText _).cons (by simp)

/-- In what follows a name a text token before another one ends its line. -/
theorem Attachment.sealsText {colon : Bool} {target body : Option Text}
    (h : Attachment colon rest ss target body after) (p : Position) :
    Token.SealsText (Stretch.tokens p ss) := by
  cases h with
  | target _ htail => exact (htail.sealsText _).cons (by simp)
  | unclosed => exact sealsText_nil.cons (by simp)
  | plain _ htail => exact htail.sealsText p

/-- Whether text in front of pieces stops there: a reference begins, or something else that counts
only at the start of a line. -/
def Halts (lineStart : Bool) (before : Option Char) (ps : List Piece) : Prop :=
  startsReference before ps = true ∨ lineStart = true ∧ Leads before ps

/-- The last fragment of text of a phrase ends a line, or comes before what it stops at. -/
theorem Phrase.breaksBefore (h : Phrase lineStart before rest ss ls after) (p : Position) :
    (Stretch.tokens p ss).IsChain Token.BreaksBefore ∧
      ∀ x ∈ (Stretch.tokens p ss).getLast?, x.kind = .text → x.endsLine = true ∨ after = [] ∨
        Halts ls ((Stretch.join ss).getLast?.or before) (scan after) := by
  cases h with
  | comment => exact ⟨.nil, by simp [Stretch.tokens]⟩
  | @indent before space lead hne _ h =>
    refine ⟨.singleton _, fun x hx _ => Or.inr (Or.inr (Or.inr ⟨rfl, ?_⟩))⟩
    have hlast : ((Stretch.join [.token .text space]).getLast?).or before = space.getLast? := by
      rw [Stretch.join_cons, Stretch.join_nil, List.append_nil, Stretch.text,
        List.getLast?_eq_some_getLast hne, Option.some_or]
    rwa [hlast]
  | header => exact ⟨.singleton _, by simp [Stretch.tokens]⟩
  | @statement _ _ text mid =>
    rw [Stretch.tokens]
    unfold Stretch.ofText
    split
    · exact ⟨.singleton _, by simp [Stretch.tokens]⟩
    · refine ⟨.cons (.singleton _) (fun y _ hx => by cases hx), ?_⟩
      simp only [Stretch.tokens, List.getLast?_cons_cons, List.getLast?_singleton]
      rintro x ⟨⟩ -
      exact (Text.endsLine_cutLine mid).imp_right Or.inl
  | @reference _ before name rest after ss _ _ _ _ _ h =>
    have hseals : Token.SealsText (Stretch.tokens p
        (.token .referenceStart ['@'] :: (Stretch.ofText .identifier name ++ ss))) := by
      cases name with
      | nil => exact (h.sealsText _).cons (by simp)
      | cons c name => exact ((h.sealsText _).cons (by simp)).cons (by simp)
    exact ⟨hseals.1, fun x hx hkind => absurd hkind (hseals.2 x hx)⟩
  | @text _ before rest text after _ _ _ h =>
    refine ⟨.singleton _, ?_⟩
    have hstops := splitText_stops before (scan rest) fun p hp => Piece.sound_of_mem_scan hp
    rw [h] at hstops
    simp only [Stretch.tokens, List.getLast?_singleton, Stretch.join_cons, Stretch.join_nil,
      List.append_nil, Stretch.text]
    rintro x ⟨⟩ -
    refine hstops.imp_right (Or.imp (fun hnil => ?_) Or.inl)
    exact Piece.scan_eq_nil_iff.mp hnil

/-- Where text stops, the next token is not text. -/
theorem Phrases.head_kind (h : Phrases lineStart before rest ss)
    (hhalts : Halts lineStart before (scan rest)) (p : Position) :
    ∀ y ∈ (Stretch.tokens p ss).head?, y.kind ≠ .text := by
  have hleads : Leads before (scan rest) := hhalts.elim (fun h => Or.inr (Or.inr h)) And.right
  cases h with
  | nil => simp [Stretch.tokens]
  | cons h _ =>
    rw [Stretch.tokens_append]
    cases h with
    | comment h =>
      rw [(atStart_of_leads hleads).2] at h
      cases h
    | indent hne hspace _ => exact absurd hleads (not_leads_of_isHorizontal hne hspace)
    | header => simp [Stretch.tokens]
    | statement => simp [Stretch.tokens]
    | reference => simp [Stretch.tokens]
    | text hne hline hstart h =>
      rcases hhalts with hreference | ⟨rfl, hopens⟩
      · rw [hstart] at hreference
        cases hreference
      · have hclosed := hline rfl
        rw [opensLine, (atStart_of_leads hleads).1] at hclosed
        rcases hopens with hopens | hopens | hopens
        · simp [hopens] at hclosed
        · simp [hopens] at hclosed
        · rw [hstart] at hopens
          cases hopens

/-- Fragments of text in a row break the line between them. -/
theorem Phrases.breaksBefore (h : Phrases lineStart before rest ss) (p : Position) :
    (Stretch.tokens p ss).IsChain Token.BreaksBefore := by
  induction h generalizing p with
  | nil => exact .nil
  | @cons lineStart ls before rest after ss ts h hrest ih =>
    obtain ⟨hchain, hlast⟩ := h.breaksBefore p
    rw [Stretch.tokens_append]
    refine List.isChain_append.mpr ⟨hchain, ih _, fun x hx y hy hxkind hykind => ?_⟩
    rcases hlast x hx hxkind with hends | hnil | hhalts
    · exact hends
    · subst hnil
      rw [hrest.eq_nil] at hy
      cases hy
    · exact absurd hykind (hrest.head_kind hhalts _ y hy)

end Lexer

/-- A token of text comes from a stretch that stands between others. -/
theorem Stretch.exists_of_tokens_eq {p : Position} {ss : List Stretch} {last t : Token}
    {before after : List Token} (h : tokens p ss ++ [last] = before ++ t :: after)
    (ht : t.kind = .text) (hlast : last.kind = .eof) :
    ∃ pre text post, ss = pre ++ .token .text text :: post ∧ tokens p pre = before ∧
      t = ⟨.text, text, p.advance (join pre)⟩ := by
  induction ss generalizing p before with
  | nil =>
    cases before with
    | nil =>
      rw [← (List.cons.inj h).1, hlast] at ht
      cases ht
    | cons x before => cases before <;> cases (List.cons.inj h).2
  | cons s ss ih =>
    have step {q : Position} {before : List Token}
        (h : tokens q ss ++ [last] = before ++ t :: after) (hq : p.advance s.text = q) :
        ∃ pre text post, ss = pre ++ .token .text text :: post ∧ tokens q pre = before ∧
          t = ⟨.text, text, p.advance (join (s :: pre))⟩ := by
      obtain ⟨pre, text, post, hss, hbefore, heq⟩ := ih h
      refine ⟨pre, text, post, hss, hbefore, ?_⟩
      rw [join_cons, Position.advance_append, hq]
      exact heq
    cases s with
    | token kind text =>
      cases before with
      | nil =>
        obtain ⟨rfl, -⟩ := List.cons.inj h
        have hkind : kind = .text := ht
        exact ⟨[], text, ss, by rw [hkind]; rfl, rfl, by rw [hkind]; rfl⟩
      | cons x before =>
        obtain ⟨rfl, hrest⟩ := List.cons.inj h
        obtain ⟨pre, t', post, rfl, rfl, heq⟩ := step hrest rfl
        exact ⟨_ :: pre, t', post, rfl, rfl, heq⟩
    | comment line =>
      obtain ⟨pre, t', post, rfl, rfl, heq⟩ := step h rfl
      exact ⟨_ :: pre, t', post, rfl, rfl, heq⟩
    | gap space =>
      obtain ⟨pre, t', post, rfl, rfl, heq⟩ := step h rfl
      exact ⟨_ :: pre, t', post, rfl, rfl, heq⟩

namespace Token

/-- What a fragment of text has to do with the token before it: it stands where a line begins
exactly if that token ends a line, and if that token is text too, it does. -/
def Meets (x y : Token) : Prop :=
  y.kind = .text → (y.place.column = 1 ↔ x.endsLine = true) ∧ (x.kind = .text → x.endsLine = true)

variable {before after : List Token} {t : Token}

/-- In a script, a fragment of text stands where a line begins exactly if the token before it ends a
line. -/
theorem column_eq_one_iff (source : Text) (h : ofText source = before ++ t :: after)
    (ht : t.kind = .text) : t.place.column = 1 ↔ ∀ x ∈ before.getLast?, x.endsLine = true := by
  obtain ⟨ss, hss⟩ := Lexer.exists_phrases true none source
  have hfit : Stretch.FitAll [] ss [] := hss.fitAll fun _ _ => Or.inl rfl
  have htokens : ofText source = _ := hss.tokens .start
  rw [htokens] at h
  obtain ⟨pre, text, post, heq, rfl, rfl⟩ := Stretch.exists_of_tokens_eq h ht rfl
  rw [Position.advance_start]
  exact Stretch.column_eq_one_iff hfit.fits heq

/-- Of two tokens in a script the second one meets the first. -/
theorem meets_ofText (source : Text) : (ofText source).IsChain Meets := by
  obtain ⟨ss, hss⟩ := Lexer.exists_phrases true none source
  have htokens : ofText source = _ := hss.tokens .start
  have hbreaks : (ofText source).IsChain BreaksBefore := by
    rw [htokens]
    refine List.isChain_append.mpr ⟨hss.breaksBefore .start, .singleton _, ?_⟩
    rintro x - y ⟨⟩ - hy
    cases hy
  rw [List.isChain_iff_forall_rel_of_append_cons_cons] at hbreaks ⊢
  intro x y before after h hy
  have hsplit : ofText source = (before ++ [x]) ++ y :: after := by simpa using h
  refine ⟨?_, fun hx => hbreaks h hx hy⟩
  rw [column_eq_one_iff source hsplit hy]
  simp

/-- Only text ends a line. -/
theorem kind_of_endsLine (source : Text) :
    ∀ t ∈ ofText source, t.endsLine = true → t.kind = .text := by
  obtain ⟨ss, hss⟩ := Lexer.exists_phrases true none source
  have htokens : ofText source = _ := hss.tokens .start
  rw [htokens]
  refine List.forall_mem_append.mpr ⟨fun t ht hends => ?_, List.forall_mem_singleton.mpr nofun⟩
  exact hss.endsLineAsText _ (Stretch.mem_of_mem_tokens ht) hends

end Token

end PromptScript
