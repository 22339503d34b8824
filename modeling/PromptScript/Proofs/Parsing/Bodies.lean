import PromptScript.Proofs.Parsing.Recognition
import PromptScript.Proofs.Text.Braces

/-!
# Bodies of references

Where a brace follows the head of a reference, the body is what stands between that brace and the
one that closes it, counting every brace of the script in between; a brace that nothing closes is
an error. Nothing inside a body is read as anything but text and braces, and one report says that
it nests braces too deeply if it does, at the first brace inside another.
-/

namespace PromptScript

open Piece (isHorizontal)
open Token (Grammar)

namespace Text

/-- Text without braces has no brace inside another. -/
theorem firstNested?_append {a : Text} (hleft : '{' ∉ a) (hright : '}' ∉ a) (depth : Nat)
    (b : Text) : firstNested? depth (a ++ b) = (firstNested? depth b).map (a ++ ·) := by
  induction a with
  | nil => simp
  | cons c a ih =>
    have hl := (List.ne_of_not_mem_cons hleft).symm
    have hla := List.not_mem_of_not_mem_cons hleft
    have hr := (List.ne_of_not_mem_cons hright).symm
    have hra := List.not_mem_of_not_mem_cons hright
    rw [List.cons_append, firstNested?, if_neg hl, if_neg hr, ih hla hra, Option.map_map]
    rfl

/-- A closing brace at the end is not inside another. -/
theorem firstNested?_append_close (depth : Nat) (t : Text) :
    firstNested? depth (t ++ ['}']) = firstNested? depth t := by
  induction t generalizing depth with
  | nil => rfl
  | cons c t ih => simp only [List.cons_append, firstNested?, ih]

end Text

/-- A closing brace at the end is not inside another. -/
theorem Draft.deepBrace?_append_close {t : Token} (ht : t.kind = .braceClose) (depth : Nat)
    (tokens : List Token) : deepBrace? depth (tokens ++ [t]) = deepBrace? depth tokens := by
  induction tokens generalizing depth with
  | nil => simp [deepBrace?, ht]
  | cons x tokens ih => simp only [List.cons_append, deepBrace?, ih]

namespace Lexer

variable {rest after : Text} {ss : List Stretch}

/-- The first brace token inside another stands where the first such brace of the text does. -/
theorem Body.deepBrace?_tokens {depth : Nat} (h : Body depth rest ss after) (p : Position) :
    Draft.deepBrace? depth (Stretch.tokens p ss) =
      (Text.firstNested? depth (Stretch.join ss)).map fun lead =>
        ⟨.braceOpen, ['{'], p.advance lead⟩ := by
  have shift (p : Position) {d : Nat} {text : Text} {more : List Stretch}
      (ih : Draft.deepBrace? d (Stretch.tokens (p.advance text) more) =
        (Text.firstNested? d (Stretch.join more)).map fun lead =>
          ⟨.braceOpen, ['{'], (p.advance text).advance lead⟩) :
      Draft.deepBrace? d (Stretch.tokens (p.advance text) more) =
        ((Text.firstNested? d (Stretch.join more)).map (text ++ ·)).map fun lead =>
          ⟨.braceOpen, ['{'], p.advance lead⟩ := by
    rw [ih, Option.map_map]
    simp only [Function.comp_def, Position.advance_append]
  induction h generalizing p with
  | close => rfl
  | @leave depth rest after ss _ _ ih => exact shift p (ih _)
  | @enter depth rest after ss _ ih =>
    rw [Stretch.tokens, Draft.deepBrace?, if_pos rfl, Stretch.join_cons]
    change _ = (Text.firstNested? depth ('{' :: Stretch.join ss)).map _
    rw [Text.firstNested?, if_pos rfl]
    by_cases hdeep : 2 ≤ depth
    · rw [if_pos hdeep, if_pos hdeep]
      rfl
    · rw [if_neg hdeep, if_neg hdeep]
      exact shift p (ih _)
  | @fragment depth rest text mid after ss _ hcut _ ih =>
    have hleft := Text.not_mem_cutBody (Or.inl rfl) rest
    have hright := Text.not_mem_cutBody (Or.inr rfl) rest
    rw [hcut] at hleft hright
    rw [Stretch.join_cons, Stretch.text, Text.firstNested?_append hleft hright]
    exact shift p (ih _)

/-- The tokens inside a body and its closing brace: they hold the text of the body, and the first
brace inside another stands where the first such brace of the text does. -/
theorem Body.inside (h : Body 1 rest ss after) (p : Position) (more : List Token) :
    ∃ ts closing inner, Item.splitBraced 1 (Stretch.tokens p ss ++ more) = (ts, some closing, more) ∧
      Stretch.tokens p ss = ts ++ [closing] ∧ Draft.textOf ts = inner ∧
      rest.Encloses inner after ∧ closing.kind = .braceClose ∧
      (∀ t ∈ ts, t.kind ∈ [Token.Kind.braceOpen, .braceClose, .text]) ∧
      Draft.deepBrace? 1 ts = (Text.firstNested? 1 inner).map fun lead =>
        ⟨.braceOpen, ['{'], p.advance lead⟩ := by
  obtain ⟨ts, closing, inner, hsplit, htokens, htext, hjoin⟩ := h.split p more
  have hclosing : closing.kind = .braceClose := by
    obtain ⟨init, rfl⟩ := h.last
    rw [Stretch.tokens_append] at htokens
    rw [← List.singleton_inj.mp (List.append_inj_right' htokens rfl)]
  refine ⟨ts, closing, inner, hsplit, htokens, htext, ?_, hclosing, fun t ht => ?_, ?_⟩
  · obtain ⟨found, hcut, hfound⟩ := h.cut
    rw [hjoin] at hfound
    rw [List.append_cancel_right hfound]
    exact Text.cutClosing?_eq_some_iff.mp hcut
  · refine Item.kind_of_body (h.grammar (Nat.le_refl 1) p) t ?_
    rw [htokens]
    exact List.mem_append_left _ ht
  · rw [← Draft.deepBrace?_append_close hclosing, ← htokens, h.deepBrace?_tokens, hjoin,
      Text.firstNested?_append_close]

end Lexer

namespace ReferenceHead

/-- Whether the tokens after a head are those of the text after it, which stands at a place: what
follows a target, or a quote that is never closed. -/
def Precedes (head : ReferenceHead) (p : Position) (rest : Text) : Prop :=
  (∃ ss body after more, Lexer.Tail rest ss body after ∧ Grammar more ∧
    head.after = Stretch.tokens p ss ++ more) ∨
  ∃ after more, rest = '"' :: after ∧ head.after = ⟨.error, ['"'], p⟩ :: more

/-- Whether a head stands in a script between a part before it and a part after it. -/
structure StandsBetween (head : ReferenceHead) (source before rest : Text) : Prop where
  /-- The script is the part before the head, the head, and the part after it. -/
  source_eq : source = before ++ (head.text ++ rest)
  /-- The at sign is at the place that comes after the part before it. -/
  place_eq : head.start.place = .after before
  /-- The tokens after the head are those of the part after it. -/
  precedes : head.Precedes (.after (before ++ head.text)) rest

end ReferenceHead

/-- The head that begins at a place stands there, if the texts of its tokens are those of the
script. -/
theorem ReferenceHead.StandsBetween.ofTokens {passed name rest next : Text}
    {named target : Option Token} {tokens mid ts : List Token}
    (hname : Item.takeKind .identifier tokens = (named, mid))
    (htarget : Item.takeKind .target mid = (target, ts)) (htext : Draft.textOf named.toList = name)
    (hrest : rest = Draft.textOf target.toList ++ next)
    (hprecedes : (⟨⟨.referenceStart, ['@'], .after passed⟩, named, target, ts⟩ :
      ReferenceHead).Precedes (.after (passed ++ '@' :: (name ++ Draft.textOf target.toList))) next) :
    (ReferenceHead.ofTokens ⟨.referenceStart, ['@'], .after passed⟩ tokens).StandsBetween
      (passed ++ '@' :: (name ++ rest)) passed next := by
  have hhead : ReferenceHead.ofTokens ⟨.referenceStart, ['@'], .after passed⟩ tokens =
      ⟨⟨.referenceStart, ['@'], .after passed⟩, named, target, ts⟩ := by
    rw [ReferenceHead.ofTokens, hname, htarget]
  have hheadText : (ReferenceHead.ofTokens ⟨.referenceStart, ['@'], .after passed⟩ tokens).text =
      '@' :: (name ++ Draft.textOf target.toList) := by
    rw [hhead, ← htext]
    simp [ReferenceHead.text, Draft.textOf]
  refine ⟨?_, rfl, ?_⟩
  · rw [hheadText, hrest]
    simp
  · rw [hheadText, hhead]
    exact hprecedes

/-- A text that is passed later adds to what was passed before. -/
theorem Position.advance_after (passed text : Text) :
    (after passed).advance text = after (passed ++ text) := by
  rw [← advance_start, ← advance_start, advance_append]

/-- Whether a head is that of a reference phrase of a script: its at sign comes after a part of the
script, and the tokens after that are those of the name, of what is attached to it and of the phrases
that follow. -/
inductive ReferenceHead.ComesFrom : Text → ReferenceHead → Prop
  | phrase {passed name rest after : Text} {before : Option Char} {ss more : List Stretch}
      {target body : Option Text} {last : Token} {p : Position}
      (h : Lexer.Attachment (('@' :: name).getLast? == some ':') rest ss target body after)
      (hmore : Lexer.Phrases false
        ((Stretch.join (.token .referenceStart ['@'] :: (Stretch.ofText .identifier name ++ ss))).getLast?.or
          before) after more)
      (hlast : last.kind = .eof) :
      ComesFrom (passed ++ '@' :: (name ++ rest)) (.ofTokens ⟨.referenceStart, ['@'], .after passed⟩
        (Stretch.tokens ((Position.after passed).advance ['@'])
          (Stretch.ofText .identifier name ++ ss) ++ (Stretch.tokens p more ++ [last])))

namespace Lexer

variable {rest after : Text} {ss : List Stretch}

/-- What is attached to a name has no token that can only stand first in an item. -/
theorem Attachment.kind_not_mem {colon : Bool} {target body : Option Text}
    (h : Attachment colon rest ss target body after) (name : Text) (p : Position) :
    ∀ t ∈ Stretch.tokens p (Stretch.ofText .identifier name ++ ss), t.kind ∉ Item.leadKinds := by
  intro t ht
  rw [Stretch.tokens_append] at ht
  rcases List.mem_append.mp ht with ht | ht
  · cases name with
    | nil => cases ht
    | cons c name =>
      rw [List.mem_singleton.mp ht]
      change Token.Kind.identifier ∉ Item.leadKinds
      decide
  · obtain ⟨quoted, tail, hquoted, htail, htokens⟩ :=
      h.grammar (p.advance (Stretch.join (Stretch.ofText .identifier name)))
    rw [htokens] at ht
    rcases List.mem_append.mp ht with ht | ht
    · rw [hquoted t (by simpa using ht)]
      decide
    · exact Item.kind_of_tail htail t ht

/-- The head of a reference stands where its phrase does. -/
theorem Attachment.standsBetween {colon : Bool} {target body : Option Text}
    (h : Attachment colon rest ss target body after) (name passed : Text) {more : List Token}
    (hmore : Grammar more) :
    ∃ next, (ReferenceHead.ofTokens ⟨.referenceStart, ['@'], .after passed⟩
      (Stretch.tokens ((Position.after passed).advance ['@'])
        (Stretch.ofText .identifier name ++ ss) ++ more)).StandsBetween
          (passed ++ '@' :: (name ++ rest)) passed next := by
  obtain ⟨named, hnamed, htake⟩ := h.takeName name ((Position.after passed).advance ['@']) hmore
  have htext : Draft.textOf named.toList = name := by
    rw [← hnamed]
    cases named <;> simp [Draft.textOf]
  have hplace : ((Position.after passed).advance ['@']).advance name =
      .after (passed ++ '@' :: name) := by
    rw [← Position.advance_append, Position.advance_after]
    rfl
  rw [hplace] at htake
  cases h with
  | @target rest text mid after ss body hcut htail =>
    have hrest : '"' :: rest = '"' :: text ++ mid := by rw [← cutQuote?_join hcut, List.cons_append]
    refine ⟨mid, .ofTokens htake rfl htext (by simpa [Draft.textOf] using hrest) ?_⟩
    refine Or.inl ⟨ss, body, after, more, htail, hmore, ?_⟩
    simp [Draft.textOf, Position.advance_after]
  | unclosed =>
    refine ⟨'"' :: after, .ofTokens htake rfl htext rfl (Or.inr ⟨after, more, rfl, ?_⟩)⟩
    simp [Draft.textOf, Stretch.tokens]
  | @plain _ rest after ss body _ htail =>
    obtain ⟨x, others, heq, hx⟩ :=
      Item.exists_head_of_tail (htail.grammar (.after (passed ++ '@' :: name))) hmore
    have hkind : x.kind ≠ .target := fun hk => absurd (hk ▸ hx) (by decide)
    exact ⟨rest, .ofTokens htake (takeKind_of_head heq hkind) htext rfl
      (Or.inl ⟨ss, body, after, more, htail, hmore, by simp [Draft.textOf]⟩)⟩

/-- The heads of the references of a text are those of its reference phrases. -/
theorem Phrases.comesFrom {lineStart : Bool} {before : Option Char}
    (h : Phrases lineStart before rest ss) (passed : Text) {last : Token} (hlast : last.kind = .eof) :
    ∀ head ∈ Token.referenceHeads (Stretch.tokens (.after passed) ss ++ [last]),
      head.ComesFrom (passed ++ rest) := by
  induction h generalizing passed with
  | nil => simp [Stretch.tokens, Token.referenceHeads, hlast]
  | @cons lineStart ls before rest after ss ts h hrest ih =>
    have hih := ih (passed ++ Stretch.join ss)
    rw [← Position.advance_after, List.append_assoc, h.join] at hih
    rw [Stretch.tokens_append, List.append_assoc]
    have hother (hkinds : ∀ t ∈ Stretch.tokens (.after passed) ss, t.kind ≠ .referenceStart) :
        ∀ head ∈ Token.referenceHeads (Stretch.tokens (.after passed) ss ++
          (Stretch.tokens ((Position.after passed).advance (Stretch.join ss)) ts ++ [last])),
          head.ComesFrom (passed ++ rest) := by
      rw [Item.referenceHeads_append hkinds]
      exact hih
    cases h with
    | comment => exact hother (by simp [Stretch.tokens])
    | indent => exact hother (by simp [Stretch.tokens])
    | header => exact hother (by simp [Stretch.tokens])
    | @statement _ _ _ mid =>
      refine hother (List.forall_mem_cons.mpr ⟨by simp, ?_⟩)
      unfold Stretch.ofText
      split <;> simp [Stretch.tokens]
    | text => exact hother (by simp [Stretch.tokens])
    | @reference _ before name rest after ss _ _ _ _ _ h =>
      have hinside := h.kind_not_mem name ((Position.after passed).advance ['@'])
      rw [Stretch.tokens, List.cons_append, Token.referenceHeads, if_pos rfl,
        Item.referenceHeads_append fun t ht hkind => hinside t ht (by rw [hkind]; decide)]
      exact List.forall_mem_cons.mpr ⟨.phrase h hrest hlast, hih⟩

end Lexer

/-- Whether a report says that a body nests braces too deeply. -/
def Diagnostic.isDepthReport (x : Diagnostic) : Bool :=
  x.code == "E_REF_DEPTH".toList

namespace ReferenceHead

/-- What a script gives for a reference whose head is followed by a brace: the reference, and the
report on the depth of its braces, if there is one. The brace comes after a part of the script, and
what is inside comes after the brace. -/
structure OpensBody (head : ReferenceHead) (r : Reference) (report : Option Diagnostic)
    (passed inside : Text) : Prop where
  /-- The brace is an opening brace if some brace closes it, and an error otherwise. -/
  brace : ∃ kind more, head.after = ⟨kind, ['{'], .after passed⟩ :: more ∧
    (kind = .braceOpen ∧ (∃ body after, inside.Encloses body after) ∨
      kind = .error ∧ ¬∃ body after, inside.Encloses body after)
  /-- What the braces enclose is the body, trimmed, and its keyed view. -/
  body : ∀ body after, inside.Encloses body after →
    r.body = Text.trim body ∧ r.params = Params.ofBody (Text.trim body)
  /-- What the braces enclose is read as text and braces alone. -/
  tokens : ∀ body after, inside.Encloses body after → ∃ opening ts closing more,
    head.after = opening :: (ts ++ closing :: more) ∧ Draft.textOf ts = body ∧
      closing.kind = .braceClose ∧ ∀ t ∈ ts, t.kind ∈ [Token.Kind.braceOpen, .braceClose, .text]
  /-- A report is at the first brace inside another. -/
  report_at : ∀ body after, inside.Encloses body after → ∀ x ∈ report, ∃ lead,
    body.IsFirstNested lead ∧ x.isAt (.after (passed ++ '{' :: lead)) = true
  /-- Without a report no brace is inside another. -/
  report_none : ∀ body after, inside.Encloses body after → report = none →
    ∀ lead, ¬body.IsFirstNested lead
  /-- There is no report on a brace that nothing closes. -/
  report_open : (¬∃ body after, inside.Encloses body after) → report = none

/-- Whether a reference and a report on its depth are what a script gives for a head: it stands in
the script, a brace after it opens a body, and without a brace there is no report. -/
def IsReadIn (head : ReferenceHead) (source : Text) (r : Reference) (report : Option Diagnostic) :
    Prop :=
  ∃ before rest, source = before ++ (head.text ++ rest) ∧ head.start.place = .after before ∧
    (∀ space inside, space.all isHorizontal = true → rest = space ++ '{' :: inside →
      head.OpensBody r report (before ++ head.text ++ space) inside) ∧
    ((rest.dropWhile isHorizontal).head? ≠ some '{' → report = none)

/-- Whether a reference and a report on its depth are what the tokens after a head give. -/
structure Records (head : ReferenceHead) (r : Reference) (report : Option Diagnostic) : Prop where
  /-- The body is that of the tail. -/
  body : r.body = Text.trim (Item.splitTail head.after).1.body
  /-- The keyed view is that of the body. -/
  params : r.params = Params.ofBody r.body
  /-- The report is the one on the tail. -/
  report : report =
    (((Item.splitTail head.after).1.reports head.kind).filter Diagnostic.isDepthReport).head?

variable {head : ReferenceHead} {r : Reference} {report : Option Diagnostic}

/-- White space before a brace can be told from it. -/
theorem eq_of_append_brace {space other rest inside : Text} (hspace : space.all isHorizontal = true)
    (hother : other.all isHorizontal = true) (h : space ++ '{' :: rest = other ++ '{' :: inside) :
    space = other ∧ rest = inside := by
  have hbrace : isHorizontal '{' = false := by decide
  have hself {t : Text} (ht : t.all isHorizontal = true) : t.takeWhile isHorizontal = t := by
    have htake : (t ++ []).takeWhile isHorizontal = t ++ [].takeWhile isHorizontal :=
      List.takeWhile_append_of_pos (List.all_eq_true.mp ht)
    simpa using htake
  have htake := congrArg (List.takeWhile isHorizontal) h
  rw [Piece.takeWhile_append_cons hbrace, Piece.takeWhile_append_cons hbrace, hself hspace,
    hself hother] at htake
  subst htake
  exact ⟨rfl, (List.cons.inj (List.append_cancel_left h)).2⟩

/-- There is no report on the depth of a brace or a quote that is never closed. -/
theorem isDepthReport_unterminated (kind : Text) (mark : Token) (recovered : List Token) :
    ((Item.Tail.unterminated mark recovered).reports kind).filter Diagnostic.isDepthReport = [] := by
  rw [Item.Tail.reports]
  split <;> rfl

/-- A brace that nothing closes is an error, without a report on its depth. -/
theorem Records.opensBody_of_open (h : head.Records r report) {passed inside : Text}
    {more : List Token} (hopen : Text.cutClosing? 1 inside = none)
    (htokens : head.after = ⟨.error, ['{'], .after passed⟩ :: more) :
    head.OpensBody r report passed inside := by
  have hnone : ¬∃ body after, inside.Encloses body after := by
    rintro ⟨body, after, hencloses⟩
    rw [Text.cutClosing?_eq_some_iff.mpr hencloses] at hopen
    cases hopen
  have hreport : report = none := by
    rw [h.report, htokens]
    exact congrArg List.head? (isDepthReport_unterminated head.kind _ _)
  exact {
    brace := ⟨.error, more, htokens, Or.inr ⟨rfl, hnone⟩⟩
    body := fun body after hencloses => absurd ⟨body, after, hencloses⟩ hnone
    tokens := fun body after hencloses => absurd ⟨body, after, hencloses⟩ hnone
    report_at := fun body after hencloses => absurd ⟨body, after, hencloses⟩ hnone
    report_none := fun body after hencloses => absurd ⟨body, after, hencloses⟩ hnone
    report_open := fun _ => hreport }

/-- A brace that another one closes opens a body. -/
theorem Records.opensBody_of_body (h : head.Records r report) {passed inside after : Text}
    {ss : List Stretch} {more : List Token} (hbody : Lexer.Body 1 inside ss after)
    (htokens : head.after = ⟨.braceOpen, ['{'], .after passed⟩ ::
      (Stretch.tokens (.after (passed ++ ['{'])) ss ++ more)) :
    head.OpensBody r report passed inside := by
  obtain ⟨ts, closing, inner, hsplit, hinside, htext, hencloses, hclosing, hkinds, hdeep⟩ :=
    hbody.inside (.after (passed ++ ['{'])) more
  have htail : (Item.splitTail head.after).1 =
      .braced ⟨.braceOpen, ['{'], .after passed⟩ ts (some closing) := by
    rw [htokens, Item.splitTail, if_pos rfl, hsplit]
  have hunique {body rest : Text} (hother : inside.Encloses body rest) : body = inner := by
    have hcut := Text.cutClosing?_eq_some_iff.mpr hother
    rw [Text.cutClosing?_eq_some_iff.mpr hencloses] at hcut
    cases hcut
    rfl
  have hreport : report = (Text.firstNested? 1 inner).map fun lead =>
      (Document.Problem.deepBody head.kind).diagnostic
        (Token.span ⟨.braceOpen, ['{'], .after (passed ++ '{' :: lead)⟩) := by
    rw [h.report, htail, Item.Tail.reports, hdeep]
    cases Text.firstNested? 1 inner with
    | none => rfl
    | some lead =>
      have hplace : (Position.after (passed ++ ['{'])).advance lead =
          .after (passed ++ '{' :: lead) := by
        rw [Position.advance_after, List.append_assoc]
        rfl
      simp only [Option.map_some, Option.toList_some, List.map_cons, List.map_nil, hplace]
      rfl
  exact {
    brace := ⟨.braceOpen, _, htokens, Or.inl ⟨rfl, inner, after, hencloses⟩⟩
    body := fun body rest hother => by
      have hrbody : r.body = Text.trim body := by
        rw [h.body, htail, hunique hother, ← htext]
        rfl
      exact ⟨hrbody, by rw [h.params, hrbody]⟩
    tokens := fun body rest hother => by
      refine ⟨⟨.braceOpen, ['{'], .after passed⟩, ts, closing, more, ?_,
        by rw [htext, hunique hother], hclosing, hkinds⟩
      rw [htokens, hinside, List.append_assoc]
      rfl
    report_at := fun body rest hother x hx => by
      rw [hunique hother]
      rw [hreport] at hx
      obtain ⟨lead, hlead, rfl⟩ := Option.map_eq_some_iff.mp hx
      exact ⟨lead, (Text.firstNested?_one_iff hencloses.2).mp hlead,
        Document.Problem.isAt_diagnostic _ _⟩
    report_none := fun body rest hother hnone lead hlead => by
      rw [hunique hother, ← Text.firstNested?_one_iff hencloses.2] at hlead
      rw [hreport, hlead] at hnone
      cases hnone
    report_open := fun hnone => absurd ⟨inner, after, hencloses⟩ hnone }

/-- A brace after a head opens a body or is an error. -/
theorem Records.opensBody (h : head.Records r report) {passed inside space : Text}
    (hspace : space.all isHorizontal = true)
    (hprecedes : head.Precedes (.after passed) (space ++ '{' :: inside)) :
    head.OpensBody r report (passed ++ space) inside := by
  obtain ⟨ss, body, after, more, htail, -, htokens⟩ | ⟨after, more, hquote, -⟩ := hprecedes
  · generalize hrest : space ++ '{' :: inside = rest at htail
    cases htail with
    | bare hbare =>
      have hskip : (space ++ '{' :: inside).dropWhile isHorizontal = '{' :: inside :=
        List.dropWhile_append_of_pos (List.all_eq_true.mp hspace)
      rw [← hrest, hskip] at hbare
      exact absurd rfl hbare
    | unclosed hother hopen =>
      obtain ⟨rfl, rfl⟩ := eq_of_append_brace hspace hother hrest
      rw [Lexer.tokens_ofGap, Position.advance_after] at htokens
      exact h.opensBody_of_open hopen htokens
    | braced hother hbody _ =>
      obtain ⟨rfl, rfl⟩ := eq_of_append_brace hspace hother hrest
      rw [Lexer.tokens_ofGap, Position.advance_after, Stretch.tokens, Position.advance_after] at htokens
      exact h.opensBody_of_body hbody htokens
  · cases space with
    | nil => cases hquote
    | cons c space =>
      obtain ⟨rfl, -⟩ := List.cons.inj hquote
      exact absurd (List.all_eq_true.mp hspace '"' List.mem_cons_self) (by decide)

/-- Without a brace after the head there is no report on the depth of a body. -/
theorem Records.report_eq_none (h : head.Records r report) {p : Position} {rest : Text}
    (hprecedes : head.Precedes p rest) (hrest : (rest.dropWhile isHorizontal).head? ≠ some '{') :
    report = none := by
  have hspaced {space inside : Text} (hspace : space.all isHorizontal = true) :
      ((space ++ '{' :: inside).dropWhile isHorizontal).head? = some '{' := by
    rw [List.dropWhile_append_of_pos (List.all_eq_true.mp hspace)]
    rfl
  rw [h.report]
  obtain ⟨ss, body, after, more, htail, hmore, htokens⟩ | ⟨after, more, -, htokens⟩ := hprecedes
  · cases htail with
    | bare =>
      rw [htokens, Stretch.tokens, List.nil_append, Item.splitTail_of_grammar hmore]
      rfl
    | unclosed hspace => exact absurd (hspaced hspace) hrest
    | braced hspace => exact absurd (hspaced hspace) hrest
  · rw [htokens]
    exact congrArg List.head? (isDepthReport_unterminated head.kind _ _)

/-- A head that stands in a script is read as what the tokens after it give. -/
theorem Records.isReadIn (h : head.Records r report) {source before rest : Text}
    (hstands : head.StandsBetween source before rest) : head.IsReadIn source r report :=
  ⟨before, rest, hstands.source_eq, hstands.place_eq,
    fun _ _ hspace hrest => h.opensBody hspace (hrest ▸ hstands.precedes),
    h.report_eq_none hstands.precedes⟩

end ReferenceHead

namespace Item

/-- The references that an item gives, each with the report of a sort on it. -/
def reported (sort : Diagnostic → Bool) (item : Item) : List (Reference × Option Diagnostic) :=
  item.record.references.map fun r => (r, (item.record.reports.filter sort).head?)

/-- The references that an item gives, each with the report on the depth of its braces. -/
def bodies (item : Item) : List (Reference × Option Diagnostic) :=
  item.record.references.map fun r =>
    (r, (item.record.reports.filter Diagnostic.isDepthReport).head?)

/-- Each reference of the record is reported on once. -/
theorem map_fst_reported (sort : Diagnostic → Bool) (item : Item) :
    (item.reported sort).map Prod.fst = item.record.references := by
  simp [reported, Function.comp_def]

/-- Each reference of the record has its body looked at once. -/
theorem map_fst_bodies (item : Item) : item.bodies.map Prod.fst = item.record.references :=
  item.map_fst_reported Diagnostic.isDepthReport

/-- There is at most one report on a tail. -/
theorem Tail.length_reports_le (kind : Text) (tail : Tail) : (tail.reports kind).length ≤ 1 := by
  cases tail with
  | none => exact Nat.zero_le 1
  | braced opening inner closing =>
    rw [Tail.reports]
    cases Draft.deepBrace? 1 inner with
    | none => exact Nat.zero_le 1
    | some brace => exact Nat.le_refl 1
  | unterminated mark recovered =>
    rw [Tail.reports]
    split <;> exact Nat.le_refl 1

/-- What follows a name gives at most one report of a sort. -/
theorem Tail.filter_reports (sort : Diagnostic → Bool) (kind : Text) (tail : Tail) :
    ((tail.reports kind).filter sort).head?.toList = (tail.reports kind).filter sort := by
  have hlength := Nat.le_trans (List.length_filter_le sort _) (tail.length_reports_le kind)
  generalize (tail.reports kind).filter sort = reports at hlength
  match reports, hlength with
  | [], _ => rfl
  | [x], _ => rfl

/-- The reports that an item gives, of a sort that no statement is reported with, are those on its
references. -/
theorem Groups.filterMap_reported {sort : Diagnostic → Bool}
    (hsort : ∀ x : Diagnostic, x.code = "E_MALFORMED_STATEMENT".toList → sort x = false)
    {items : List Item} {tokens : List Token} (h : Groups items tokens)
    (horder : tokens.Pairwise fun a b => a.place < b.place) {item : Item} (hmem : item ∈ items) :
    (item.reported sort).filterMap Prod.snd = item.record.reports.filter sort := by
  have hitem := h.isWhole item hmem
  have hplaces := horder.sublist (h.sublist hmem)
  have hother (hne : item.isReference = false)
      (hreports : ∀ x ∈ item.record.reports, sort x = false) :
      (item.reported sort).filterMap Prod.snd = item.record.reports.filter sort := by
    rw [reported, references_record_of_not_isReference hitem hne, List.map_nil, List.filterMap_nil]
    exact (List.filter_eq_nil_iff.mpr fun x hx => by simp [hreports x hx]).symm
  cases item with
  | header t kind => exact hother rfl fun x hx => by cases hx
  | text t =>
    have hrecord : (text t).record = .empty := Draft.record_text .empty t
    exact hother rfl (by rw [hrecord]; exact fun x hx => by cases hx)
  | statement keyword rest =>
    have hline : ∀ line ∈ rest, keyword.place ≤ line.place := fun line hline =>
      Position.le_of_lt ((List.pairwise_cons.mp hplaces).1 line (by simpa using hline))
    exact hother rfl fun x hx => hsort x (code_of_mem_reports_statement hline hx)
  | reference start name target tail =>
    obtain ⟨span, -, hrecord⟩ := exists_record_reference fun t ht =>
      Position.le_of_lt ((List.pairwise_cons.mp hplaces).1 t ht)
    rw [reported, hrecord]
    simp only [List.map_cons, List.map_nil]
    rw [List.filterMap_cons, ← tail.filter_reports sort]
    cases ((tail.reports (kindOfTokens name target)).filter sort).head? <;> rfl
  | stray => exact absurd hitem id

/-- The reports on the depth of braces that an item gives are those of its references. -/
theorem Groups.filterMap_bodies {items : List Item} {tokens : List Token}
    (h : Groups items tokens) (horder : tokens.Pairwise fun a b => a.place < b.place)
    {item : Item} (hmem : item ∈ items) :
    item.bodies.filterMap Prod.snd = item.record.reports.filter Diagnostic.isDepthReport :=
  h.filterMap_reported (fun x hcode => by rw [Diagnostic.isDepthReport, hcode]; rfl) horder hmem

end Item

/-- The references of a script and the reports on the depth of their braces are what the tokens
after the heads give. -/
theorem forall₂_records (source : Text) :
    List.Forall₂ (fun head x => head.Records x.1 x.2) (Token.referenceHeads (Token.ofText source))
      ((Item.ofTokens (Token.ofText source)).flatMap Item.bodies) := by
  have hgroups := Item.groups_ofText source
  refine hgroups.forall₂_heads Item.bodies (fun item hmem hne => ?_) ?_
  · rw [Item.bodies, Item.references_record_of_not_isReference (hgroups.isWhole item hmem) hne]
    rfl
  · intro start name target tail rest hmem hsplit
    have horder := (Token.pairwise_ofText source).sublist (hgroups.sublist hmem)
    obtain ⟨span, -, hrecord⟩ := Item.exists_record_reference fun t ht =>
      Position.le_of_lt ((List.pairwise_cons.mp horder).1 t ht)
    refine ⟨_, by rw [Item.bodies, hrecord]; rfl, ?_, rfl, ?_⟩
    · simp only [hsplit]
    · simp only [hsplit]
      rfl

/-- The heads of the references of a script are those of its reference phrases. -/
theorem Token.comesFrom_ofText (source : Text) :
    ∀ head ∈ referenceHeads (ofText source), head.ComesFrom source := by
  obtain ⟨ss, h⟩ := Lexer.exists_phrases true none source
  have htokens : ofText source = _ := h.tokens .start
  rw [htokens]
  exact h.comesFrom [] rfl

/-- The heads of the references of a script stand in it. -/
theorem Token.standsBetween_ofText (source : Text) :
    ∀ head ∈ referenceHeads (ofText source),
      ∃ before rest, head.StandsBetween source before rest := by
  intro head hhead
  cases comesFrom_ofText source head hhead with
  | @phrase passed name _ _ _ _ _ _ _ _ p h hmore hlast =>
    obtain ⟨next, hstands⟩ := h.standsBetween name passed (hmore.grammar p hlast)
    exact ⟨passed, next, hstands⟩

/-- Reports of a sort that is not about blocks are found among those that are not. -/
theorem Diagnostic.filter_isLocal {sort : Diagnostic → Bool}
    (hsort : ∀ x : Diagnostic, sort x = true → x.isLocal = true) (reports : List Diagnostic) :
    (reports.filter isLocal).filter sort = reports.filter sort := by
  rw [List.filter_filter]
  refine List.filter_congr fun x _ => ?_
  cases hx : sort x with
  | false => rfl
  | true => rw [hsort x hx]; rfl

/-- A report on the depth of braces is not about blocks. -/
theorem Diagnostic.filter_isDepthReport (reports : List Diagnostic) :
    (reports.filter isLocal).filter isDepthReport = reports.filter isDepthReport := by
  refine filter_isLocal (fun x hx => ?_) reports
  have hcode : x.code = "E_REF_DEPTH".toList := by simpa [isDepthReport] using hx
  rw [isLocal, hcode]
  rfl

/-- Each reference is read from its head on: a brace after the head opens a body if some brace of
the script closes it, counting all braces after it, and is an error otherwise; the body is what is
between the two, trimmed, with its keyed view, and nothing in it is read as anything but text and
braces. The reports on the depth of braces are those of the references, one for a body that has a
brace inside another one, at the first such brace, and none for any other reference. -/
theorem bodies_recorded (source : Text) :
    ∃ bodies : List (Reference × Option Diagnostic),
      bodies.map Prod.fst = (Parsed.ofText source).document.references ∧
      bodies.filterMap Prod.snd =
        (Parsed.ofText source).diagnostics.filter Diagnostic.isDepthReport ∧
      List.Forall₂ (fun head x => head.IsReadIn source x.1 x.2)
        (Token.referenceHeads (Token.ofText source)) bodies := by
  have hgroups := Item.groups_ofText source
  refine ⟨(Item.ofTokens (Token.ofText source)).flatMap Item.bodies, ?_, ?_, ?_⟩
  · have hreferences : (Parsed.ofText source).document.references = _ :=
      congrArg Record.references (Parsed.record_ofText source)
    rw [hreferences, Item.references_records, List.map_flatMap]
    simp only [Item.map_fst_bodies]
  · have hreports : (Parsed.ofText source).diagnostics.filter Diagnostic.isLocal = _ :=
      congrArg Record.reports (Parsed.record_ofText source)
    rw [← Diagnostic.filter_isDepthReport, hreports, Item.reports_records, List.filter_flatMap,
      List.filterMap_flatMap]
    exact List.flatMap_congr fun item hmem =>
      hgroups.filterMap_bodies (Token.pairwise_ofText source) hmem
  · have hboth := (List.forall₂_and_left ..).mpr
      ⟨Token.standsBetween_ofText source, forall₂_records source⟩
    exact hboth.imp fun head x hhead => by
      obtain ⟨⟨before, rest, hstands⟩, hrecords⟩ := hhead
      exact hrecords.isReadIn hstands

end PromptScript
