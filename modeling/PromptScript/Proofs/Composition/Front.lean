import PromptScript.Proofs.Composition.Compose
import PromptScript.Proofs.Lexing.Walk

/-!
# The front of a script

Where a script without errors is cut at the start of a line outside the bodies of references, its
front leaves no brace and no quote open. A quote that is left open in the front is never closed, and
a brace that is left open there is either never closed or has the cut in its body.
-/

namespace PromptScript

namespace Text

/-- If more text closes the braces that a text leaves open, then what they enclose goes past the
text. -/
theorem exists_of_cutClosing?_append {depth : Nat} {t more inner after : Text}
    (h : cutClosing? depth t = none) (hmore : cutClosing? depth (t ++ more) = some (inner, after)) :
    ∃ z, inner = t ++ z := by
  induction t generalizing depth inner with
  | nil => exact ⟨inner, rfl⟩
  | cons c t ih =>
    have step {d : Nat} (hnone : (cutClosing? d t).map (fun parts => (c :: parts.1, parts.2)) = none)
        (hsome : (cutClosing? d (t ++ more)).map (fun parts => (c :: parts.1, parts.2)) =
          some (inner, after)) : ∃ z, inner = c :: t ++ z := by
      obtain ⟨parts, hparts, heq⟩ := Option.map_eq_some_iff.mp hsome
      cases heq
      obtain ⟨z, hz⟩ := ih (Option.map_eq_none_iff.mp hnone) hparts
      exact ⟨z, congrArg (c :: ·) hz⟩
    rw [cutClosing?] at h
    rw [List.cons_append, cutClosing?] at hmore
    by_cases hleft : c = '{'
    · rw [if_pos hleft] at h hmore
      exact step h hmore
    · rw [if_neg hleft] at h hmore
      by_cases hright : c = '}'
      · rw [if_pos hright] at h hmore
        by_cases hdepth : depth ≤ 1
        · rw [if_pos hdepth] at h
          cases h
        · rw [if_neg hdepth] at h hmore
          exact step h hmore
      · rw [if_neg hright] at h hmore
        exact step h hmore

end Text

namespace Lexer

variable {lineStart ls : Bool} {before : Option Char} {source rest after : Text}
  {passed ss us : List Stretch}

/-- Stretches in a row leave nothing open if neither part does. -/
theorem isClosed_append : IsClosed (ss ++ us) ↔ IsClosed ss ∧ IsClosed us := by
  simp only [IsClosed, List.mem_append, not_or, forall_and]

/-- The stretches of a body leave nothing open. -/
theorem Body.isClosed {depth : Nat} (h : Body depth rest ss after) : IsClosed ss := by
  intro text hmem
  induction h with
  | close => simp at hmem
  | leave _ _ ih | enter _ ih | fragment _ _ _ ih => exact ih (by simpa using hmem)

/-- A gap leaves nothing open. -/
theorem isClosed_ofGap (space : Text) : IsClosed (Stretch.ofGap space) := by
  intro text hmem
  unfold Stretch.ofGap at hmem
  split at hmem <;> simp at hmem

/-- Text that is no error leaves nothing open. -/
theorem isClosed_ofText (kind : Token.Kind) (hkind : kind ≠ .error) (text : Text) :
    IsClosed (Stretch.ofText kind text) := by
  intro other hmem
  unfold Stretch.ofText at hmem
  split at hmem
  · cases hmem
  · exact hkind (Stretch.token.inj (List.mem_singleton.mp hmem)).1.symm

/-- Whether stretches are still open past a text, or never closed. -/
def LeavesOpen (ss : List Stretch) (t : Text) : Prop :=
  ¬IsClosed ss ∨ ∃ z, z ≠ [] ∧ Stretch.join ss = t ++ z

variable {more : Text}

/-- A brace that is left open after a target, if more text closes it, has its body go past the
text. -/
theorem Tail.closesPast {body : Option Text} (h : Tail rest ss body after)
    (hopen : .token .error ['{'] ∈ ss) (hmore : Text.cutClosing? 1 (after ++ more) ≠ none) :
    ∃ us found left z, Tail (rest ++ more) us found left ∧ z ≠ [] ∧ Stretch.join us = rest ++ z := by
  cases h with
  | bare => cases hopen
  | braced _ hbody _ =>
    rcases List.mem_append.mp hopen with hmem | hmem
    · exact absurd hmem (isClosed_ofGap _ _)
    · exact absurd hmem (by simpa using hbody.isClosed _)
  | @unclosed space _ hspace h =>
    obtain ⟨⟨inner, left⟩, hcut⟩ := Option.ne_none_iff_exists'.mp hmore
    obtain ⟨z, rfl⟩ := Text.exists_of_cutClosing?_append h hcut
    obtain ⟨body, hbody⟩ := exists_body hcut
    obtain ⟨found, hfound, hjoin⟩ := hbody.cut
    obtain ⟨rfl, -⟩ := Prod.mk.inj (Option.some.inj (hcut.symm.trans hfound))
    rw [List.append_assoc, List.cons_append]
    refine ⟨_, _, _, z ++ ['}'], .braced hspace hbody hjoin, by simp, ?_⟩
    rw [Stretch.join_append, Stretch.join_ofGap, Stretch.join_cons, hjoin]
    simp [Stretch.text]

/-- A brace that is left open after a name, if more text closes it, has its body go past the
text. -/
theorem Attachment.closesPast {colon : Bool} {target body : Option Text}
    (h : Attachment colon rest ss target body after) (hrest : Text.endsLine rest = true)
    (hopen : .token .error ['{'] ∈ ss) (hmore : Text.cutClosing? 1 (after ++ more) ≠ none) :
    ∃ us quoted found left z, Attachment colon (rest ++ more) us quoted found left ∧ z ≠ [] ∧
      Stretch.join us = rest ++ z := by
  cases h with
  | @target _ text mid _ ss _ hcut htail =>
    obtain ⟨us, found, left, z, hus, hz, hjoin⟩ := htail.closesPast (by simpa using hopen) hmore
    refine ⟨_, _, _, _, z, .target (Text.cutQuote?_append_right hcut more) hus, hz, ?_⟩
    rw [Stretch.join_cons, hjoin, ← List.append_assoc, Stretch.text, List.cons_append,
      cutQuote?_join hcut]
  | unclosed => simp at hopen
  | plain hquote htail =>
    obtain ⟨us, found, left, z, hus, hz, hjoin⟩ := htail.closesPast hopen hmore
    refine ⟨_, _, _, _, z, .plain (fun hcolon => ?_) hus, hz, hjoin⟩
    cases rest with
    | nil => cases hrest
    | cons c rest => exact hquote hcolon

/-- A brace that a phrase leaves open, if more text closes it, has its body go past the text. -/
theorem Phrase.closesPast (h : Phrase lineStart before rest ss ls after)
    (hrest : Text.endsLine rest = true) (hopen : .token .error ['{'] ∈ ss)
    (hmore : Text.cutClosing? 1 (after ++ more) ≠ none) :
    ∃ us back left z, Phrase lineStart before (rest ++ more) us back left ∧ z ≠ [] ∧
      Stretch.join us = rest ++ z := by
  cases h with
  | comment | indent | header | text => simp at hopen
  | statement =>
    have hline := isClosed_ofText .text (by decide) _ _ ((List.mem_cons.mp hopen).resolve_left (by simp))
    exact hline.elim
  | @reference _ _ name rest _ ss _ _ hname hstops hstart hattached =>
    have hattachedOpen : .token .error ['{'] ∈ ss := by
      rcases List.mem_append.mp ((List.mem_cons.mp hopen).resolve_left (by simp)) with hmem | hmem
      · exact absurd hmem (isClosed_ofText .identifier (by decide) name _)
      · exact hmem
    obtain ⟨us, quoted, found, left, z, hus, hz, hjoin⟩ :=
      hattached.closesPast (endsLine_of_name hname hrest) hattachedOpen hmore
    refine ⟨_, _, _, z, .reference_append hname hstops hstart hrest hus, hz, ?_⟩
    rw [Stretch.join_cons, Stretch.join_append, Stretch.join_ofText, hjoin]
    simp [Stretch.text]

/-- What a phrase leaves open is left open with more text after it, or closed there. -/
theorem Phrase.leavesOpen (h : Phrase lineStart before rest ss ls after)
    (hrest : Text.endsLine rest = true) (hopen : ¬IsClosed ss) (more : Text) :
    ∃ us back left, Phrase lineStart before (rest ++ more) us back left ∧ LeavesOpen us rest := by
  by_cases hnever : .token .error ['{'] ∈ ss → Text.cutClosing? 1 (after ++ more) = none
  · exact ⟨ss, ls, _, h.append_right hrest hnever, Or.inl hopen⟩
  · obtain ⟨hmem, hmore⟩ := Classical.not_imp.mp hnever
    obtain ⟨us, back, left, z, hus, hz, hjoin⟩ := h.closesPast hrest hmem hmore
    exact ⟨us, back, left, hus, Or.inr ⟨z, hz, hjoin⟩⟩

variable {next : List Stretch}

/-- The text ahead of a phrase ends the line that the whole text ends. -/
theorem Walk.endsLine (h : Walk source passed lineStart rest)
    (hphrase : Phrase lineStart before rest ss ls after)
    (hsource : source = [] ∨ Text.endsLine source = true) : Text.endsLine rest = true := by
  have hne : rest ≠ [] := by
    rintro rfl
    exact hphrase.join_ne_nil (List.append_eq_nil_iff.mp hphrase.join).1
  rw [← h.join] at hsource
  rcases hsource with hnil | hends
  · exact absurd (List.append_eq_nil_iff.mp hnil).2 hne
  · rwa [Text.endsLine_append hne] at hends

/-- A walk over a text that ends a line is a walk over it with more text after it. -/
theorem Walk.append_right (h : Walk source passed lineStart rest)
    (hsource : source = [] ∨ Text.endsLine source = true) (hclosed : IsClosed passed) (more : Text) :
    Walk (source ++ more) passed lineStart (rest ++ more) := by
  induction h with
  | start => exact .start
  | step h hphrase ih =>
    obtain ⟨hpassed, hss⟩ := isClosed_append.mp hclosed
    exact .step (ih hpassed) (hphrase.append_right (h.endsLine hphrase hsource) fun hmem =>
      absurd hmem (hss _))

/-- Phrases leave nothing open, or there is a first phrase that does. -/
theorem Walk.exists_open (h : Walk source passed lineStart rest) (hpassed : IsClosed passed)
    (hnext : Phrases lineStart (Stretch.join passed).getLast? rest next) (hopen : ¬IsClosed next) :
    ∃ front here ahead ss back after, Walk source front here ahead ∧ IsClosed front ∧
      Phrase here (Stretch.join front).getLast? ahead ss back after ∧ ¬IsClosed ss := by
  generalize hbefore : (Stretch.join passed).getLast? = before at hnext
  induction hnext generalizing passed with
  | nil => exact absurd (fun _ => List.not_mem_nil) hopen
  | @cons _ _ _ _ _ ss ts hphrase _ ih =>
    subst hbefore
    by_cases hss : IsClosed ss
    · have hts : ¬IsClosed ts := fun hclosed => hopen (isClosed_append.mpr ⟨hss, hclosed⟩)
      refine ih (h.step hphrase) (isClosed_append.mpr ⟨hpassed, hss⟩) hts ?_
      rw [Stretch.join_append, List.getLast?_append]
    · exact ⟨passed, _, _, ss, _, _, h, hpassed, hphrase, hss⟩

end Lexer

instance (p q : Position) : Decidable (p < q) :=
  inferInstanceAs (Decidable (_ ∨ _))

namespace Token

variable {p : Position} {ts us : List Token} {pre post : Text}

/-- The tokens that stand before a place. -/
def before (p : Position) (tokens : List Token) : List Token :=
  tokens.filter fun t => t.place < p

/-- Tokens in a row are cut at a place between them. -/
theorem before_append (hts : ∀ t ∈ ts, t.place < p) (hus : ∀ t ∈ us, p ≤ t.place) :
    before p (ts ++ us) = ts := by
  have hnone : us.filter (fun t => t.place < p) = [] := by
    refine List.filter_eq_nil_iff.mpr fun t ht hlt => ?_
    exact Position.ne_of_lt (Position.lt_of_lt_of_le (of_decide_eq_true hlt) (hus t ht)) rfl
  rw [before, List.filter_append, hnone, List.append_nil]
  exact List.filter_eq_self.mpr fun t ht => decide_eq_true (hts t ht)

/-- The tokens of stretches are cut at a place between them. -/
theorem before_tokens {x y : List Stretch} (hwithin : ∀ s ∈ x ++ y, s.IsWithinLine) (last : Token)
    (hlast : last.place = p.advance (Stretch.join (x ++ y))) :
    before (p.advance (Stretch.join x)) (Stretch.tokens p (x ++ y) ++ [last]) =
      Stretch.tokens p x := by
  have hx : ∀ kind text, .token kind text ∈ x → text ≠ [] := fun kind text hmem =>
    (hwithin _ (List.mem_append_left y hmem)).1
  have hy : ∀ kind text, .token kind text ∈ y → text ≠ [] := fun kind text hmem =>
    (hwithin _ (List.mem_append_right x hmem)).1
  rw [Stretch.tokens_append, List.append_assoc]
  refine before_append (fun t ht => ((Stretch.pairwise_tokens p hx).2 t ht).2)
    (List.forall_mem_append.mpr ⟨fun t ht => ((Stretch.pairwise_tokens _ hy).2 t ht).1,
      List.forall_mem_singleton.mpr ?_⟩)
  rw [hlast, Stretch.join_append, Position.advance_append]
  exact Position.le_advance _ _

/-- A phrase that begins in lines at the front of a script and goes past them has their end in the
body of a reference. -/
theorem inBody_of_past {front vs : List Stretch} {here ls : Bool} {ahead rest left z : Text}
    (hwalk : Lexer.Walk (pre ++ post) front here rest)
    (hphrase : Lexer.Phrase here (Stretch.join front).getLast? rest vs ls left)
    (hpre : Stretch.join front ++ ahead = pre) (hahead : Text.endsLine ahead = true)
    (hjoin : Stretch.join vs = ahead ++ z) (hz : z ≠ []) :
    InBody (before (.after pre) (ofText (pre ++ post))) := by
  obtain ⟨x, y, rfl, hx⟩ :=
    Stretch.exists_append_of_join hphrase.isWithinLine hjoin (Or.inr hahead)
  have hy : y ≠ [] := by
    rintro rfl
    rw [List.append_nil, hx, List.self_eq_append_right] at hjoin
    exact hz hjoin
  have hbody := hphrase.inBody_of_endsLine (hx ▸ hahead) hy (Position.start.advance (Stretch.join front))
  obtain ⟨more, hmore⟩ := Lexer.exists_phrases ls (Stretch.join (front ++ (x ++ y))).getLast? left
  have hall := (hwalk.step hphrase).phrases hmore
  have hplace : Position.start.advance (Stretch.join (front ++ x)) = .after pre := by
    rw [Stretch.join_append, hx, hpre, Position.advance_start]
  have hsplit : front ++ (x ++ y) ++ more = (front ++ x) ++ (y ++ more) := by simp
  rw [hsplit] at hall
  have htokens : ofText (pre ++ post) = _ := hall.tokens .start
  rw [htokens, ← hplace, before_tokens hall.isWithinLine _ (by rw [hall.join]), Stretch.tokens_append,
    hwalk.isBalanced.inBody_append_iff]
  exact hbody

/-- If a script has no errors and is not cut in the body of a reference, then its lines up to the
cut have no errors. -/
theorem kind_ne_error_of_cut (hpre : pre = [] ∨ Text.endsLine pre = true)
    (hclosed : ∀ t ∈ ofText (pre ++ post), t.kind ≠ .error)
    (hcut : ¬InBody (before (.after pre) (ofText (pre ++ post)))) :
    ∀ t ∈ ofText pre, t.kind ≠ .error := by
  obtain ⟨ss, hss⟩ := Lexer.exists_phrases true none pre
  refine hss.isClosed_iff.mp (Classical.byContradiction fun hopen => ?_)
  obtain ⟨front, here, ahead, us, back, after, hwalk, hfront, hphrase, hus⟩ :=
    Lexer.Walk.start.exists_open (fun _ => List.not_mem_nil) hss hopen
  have hahead := hwalk.endsLine hphrase hpre
  obtain ⟨vs, ls, left, hvs, hleaves⟩ := hphrase.leavesOpen hahead hus post
  have hlong := hwalk.append_right hpre hfront post
  rcases hleaves with hnever | ⟨z, hz, hjoin⟩
  · obtain ⟨more, hmore⟩ := Lexer.exists_phrases ls (Stretch.join (front ++ vs)).getLast? left
    have hcloses := ((hlong.step hvs).phrases hmore).isClosed_iff.mpr hclosed
    exact hnever (Lexer.isClosed_append.mp (Lexer.isClosed_append.mp hcloses).1).2
  · exact hcut (inBody_of_past hlong hvs hwalk.join hahead hjoin hz)

/-- The tokens before the end of lines that leave nothing open are those of the lines. -/
theorem exists_before_append (hpre : pre = [] ∨ Text.endsLine pre = true)
    (hclosed : ∀ t ∈ ofText pre, t.kind ≠ .error) (post : Text) :
    ∃ last, last.kind = .eof ∧ ofText pre = before (.after pre) (ofText (pre ++ post)) ++ [last] := by
  obtain ⟨ss, hss⟩ := Lexer.exists_phrases true none pre
  obtain ⟨us, hus⟩ := Lexer.exists_phrases true none post
  have htokens : ofText pre = _ := hss.tokens .start
  have hall := hss.append_lines hpre (hss.isClosed_iff.mpr hclosed) hus
  have htogether : ofText (pre ++ post) = _ := hall.tokens .start
  have hbefore := before_tokens hall.isWithinLine
    ⟨.eof, [], Position.start.advance (pre ++ post)⟩ (by rw [hall.join])
  rw [hss.join, Position.advance_start] at hbefore
  exact ⟨_, rfl, by rw [htogether, hbefore, htokens]⟩

end Token

end PromptScript
