import PromptScript.Proofs.Lexing.Starting
import PromptScript.Proofs.Parsing.Bodies
import PromptScript.Proofs.Parsing.LineStart
import PromptScript.Proofs.Text.Trim

/-!
# Targets that are never closed

A quote right after a name that ends with a colon opens a target. Where no other quote on the line
closes it, the quote is reported, and the reference keeps its colon and has no target. Its body is
what is left of the line, up to the next reference on it, and then all text that comes next: lines
of text and blank lines alike, until a reference, a header, a statement or the end of the script.
Those lines are lost to the section or the block that is open around them; what is open stays open.
-/

namespace PromptScript

open Piece (scan)
open Lexer (IsQuoted startsReference splitText)
open Token (Grammar)

namespace Text

/-- Whether an at sign between a character and a text begins a reference: no word runs into it, and a
name or a brace comes right after it. -/
def beginsReference (before : Option Char) (after : Text) : Bool :=
  !before.any joinsWord && after.head?.any fun c => isName c || c == '{'

/-- Whether a text is what is left of its line, or of the script, before the next reference on it.
It comes after a character and before the rest. -/
structure IsUpToReference (own : Text) (before : Option Char) (rest : Text) : Prop where
  /-- It does not go past the end of the line. -/
  within_line : '\n' ∉ own.dropLast
  /-- No reference begins in it. -/
  no_reference : ∀ x y, own = x ++ '@' :: y →
    beginsReference (x.getLast?.or before) (y ++ rest) = false
  /-- It goes on to the end of the line, to the end of the script or to a reference. -/
  stops : endsLine own = true ∨ rest = [] ∨
    ∃ more, rest = '@' :: more ∧ beginsReference (own.getLast?.or before) more = true

/-- Whether a name and what comes right after it open a target that is never closed. -/
structure OpensQuote (name rest after : Text) : Prop where
  /-- A colon ends the name. -/
  colon : name.getLast? = some ':'
  /-- A quote comes next. -/
  quote : rest = '"' :: after
  /-- No other quote on the line closes it. -/
  unclosed : ∀ quoted, ¬IsQuoted rest quoted

end Text

/-- Whether a report says that a target is never closed. -/
def Diagnostic.isTargetReport (x : Diagnostic) : Bool :=
  x.code == "E_UNTERMINATED_TARGET".toList

namespace Lexer

variable {before : Option Char} {rest text after : Text} {ss : List Stretch}

/-- A reference begins where an at sign does that begins one. -/
theorem exists_of_startsReference (h : startsReference before (scan rest) = true) :
    ∃ more, rest = '@' :: more ∧ Text.beginsReference before more = true := by
  obtain ⟨p, ps, hscan, hkind⟩ := exists_at_of_startsReference h
  have hsound : p.Sound := Piece.sound_of_mem_scan (hscan ▸ List.mem_cons_self)
  obtain ⟨name, rfl, -⟩ := hsound.eq_at hkind
  have hrest : rest = '@' :: (name ++ Piece.join ps) := by
    rw [← Piece.join_scan rest, hscan]
    rfl
  rw [hrest, startsReference_at] at h
  exact ⟨_, hrest, h⟩

/-- A fragment of text is what comes before the next reference on its line. -/
theorem isUpToReference_splitText (h : splitText before (scan rest) = (text, scan after)) :
    text.IsUpToReference before after := by
  have hsound : ∀ p ∈ scan rest, p.Sound := fun p hp => Piece.sound_of_mem_scan hp
  have hline := not_mem_dropLast_splitText before hsound
  have hstops := splitText_stops before (scan rest) hsound
  rw [h] at hline hstops
  refine ⟨hline, ?_, hstops.imp_right (Or.imp Piece.scan_eq_nil_iff.mp exists_of_startsReference)⟩
  rintro x y rfl
  have hstart := startsReference_of_splitText h
  rwa [Piece.join_scan, startsReference_at] at hstart

/-- Before text that is no fragment, no text is taken. -/
theorem Phrases.takeWhile_eq_nil {lineStart : Bool} (h : Phrases lineStart before rest ss)
    (hrest : rest = [] ∨ startsReference before (scan rest) = true) (p : Position) {last : Token}
    (hlast : last.kind = .eof) : (Stretch.tokens p ss ++ [last]).takeWhile Token.isText = [] := by
  have hend : last.isText = false := by simp [Token.isText, hlast]
  rcases hrest with rfl | hstart
  · rw [h.eq_nil]
    exact List.takeWhile_cons_of_neg (by simp [hend])
  · have hhead := h.head_kind (Or.inl hstart) p
    cases htokens : Stretch.tokens p ss with
    | nil => exact List.takeWhile_cons_of_neg (by simp [hend])
    | cons t ts =>
      rw [htokens] at hhead
      have ht : t.isText = false := by simpa [Token.isText] using hhead t rfl
      exact List.takeWhile_cons_of_neg (by simp [ht])

/-- The text taken within a line is what is left of it before the next reference, and only if it
ends the line more text is taken. -/
theorem Phrases.exists_recovered (h : Phrases false before rest ss) (p : Position) {last : Token}
    (hlast : last.kind = .eof) :
    ∃ own left line lost, rest = own ++ left ∧ own.IsUpToReference before left ∧
      (Stretch.tokens p ss ++ [last]).takeWhile Token.isText = line ++ lost ∧
      Draft.textOf line = own ∧ (Text.endsLine own = false → lost = []) := by
  by_cases hrest : rest = [] ∨ startsReference before (scan rest) = true
  · refine ⟨[], rest, [], [], rfl, ⟨by simp, by simp, Or.inr ?_⟩, h.takeWhile_eq_nil hrest p hlast, rfl,
      fun _ => rfl⟩
    exact hrest.imp_right exists_of_startsReference
  · obtain ⟨hne, hstart⟩ := not_or.mp hrest
    cases h with
    | nil => exact absurd rfl hne
    | @cons _ _ _ _ after _ _ h hmore =>
      have hjoin := h.join
      cases h with
      | reference _ _ hreference => exact absurd hreference hstart
      | @text _ _ _ text _ _ _ _ h =>
        have hstops := splitText_stops before (scan rest) fun q hq => Piece.sound_of_mem_scan hq
        rw [h] at hstops
        refine ⟨text, after, [⟨.text, text, p⟩], _, by simpa [Stretch.text] using hjoin.symm,
          isUpToReference_splitText h, List.takeWhile_cons_of_pos rfl, by simp [Draft.textOf],
          fun hopen => hmore.takeWhile_eq_nil ?_ _ hlast⟩
        rcases hstops with hends | hnil | hreference
        · rw [hopen] at hends
          cases hends
        · exact Or.inl (Piece.scan_eq_nil_iff.mp hnil)
        · exact Or.inr (by simpa [Stretch.text] using hreference)

end Lexer

namespace ReferenceHead

/-- The name of a head, with the colons at its end. -/
def named (head : ReferenceHead) : Text :=
  (head.name.map (·.text)).getD []

/-- The reference of a head with a quote at a place that is never closed, and with tokens taken
after it. -/
def withOpenQuote (head : ReferenceHead) (p : Position) (taken : List Token) : Item :=
  .reference head.start head.name none (.unterminated ⟨.error, ['"'], p⟩ taken)

/-- Whether a quote that is never closed comes after a head, at a place. The text after it is that of
its own line and that of the lines after, and then come other tokens. -/
structure HasOpenQuote (head : ReferenceHead) (p : Position) (own : Text)
    (line lost more : List Token) : Prop where
  /-- The head has no target. -/
  no_target : head.target = none
  /-- The quote comes after the head, and then text and the other tokens. -/
  after_eq : head.after = ⟨.error, ['"'], p⟩ :: (line ++ lost ++ more)
  /-- What comes first is text alone. -/
  texts : ∀ t ∈ line ++ lost, t.kind = .text
  /-- What comes after is no text. -/
  stops : more.head?.map (·.kind) ≠ some .text
  /-- The text of the line of the quote stands first. -/
  textOf_line : Draft.textOf line = own
  /-- There are other lines only after a line that ends. -/
  within_line : Text.endsLine own = false → lost = []

end ReferenceHead

namespace Lexer

variable {rest after : Text} {ss : List Stretch}

/-- What may follow a target is not reported as a target that is never closed. -/
theorem Tail.filter_isTargetReport {body : Option Text} (h : Tail rest ss body after) (p : Position)
    {more left : List Token} (hmore : Grammar more) {tail : Item.Tail}
    (hsplit : Item.splitTail (Stretch.tokens p ss ++ more) = (tail, left)) (kind : Text) :
    (tail.reports kind).filter Diagnostic.isTargetReport = [] := by
  cases h with
  | bare =>
    have hnone := hsplit.symm.trans (Item.splitTail_of_grammar hmore)
    cases hnone
    rfl
  | unclosed =>
    rw [tokens_ofGap] at hsplit
    cases hsplit
    rfl
  | braced =>
    rw [tokens_ofGap] at hsplit
    cases hsplit
    refine List.filter_eq_nil_iff.mpr fun x hx => ?_
    obtain ⟨brace, -, rfl⟩ := List.mem_map.mp hx
    exact Bool.false_ne_true

/-- What is attached to a name is a quote that is never closed, or it is not reported as a target that
is never closed and no quote on the line is left open. -/
theorem Attachment.unclosed_or {colon : Bool} {target body : Option Text}
    (h : Attachment colon rest ss target body after) (p : Position) {more : List Token}
    (hmore : Grammar more) :
    (colon = true ∧ rest = '"' :: after ∧ ss = [.token .error ['"']] ∧ ∀ quoted, ¬IsQuoted rest quoted) ∨
      (colon = true → ∀ left, rest = '"' :: left → ∃ quoted, IsQuoted rest quoted) ∧
        ∀ quoted mid tail left kind,
          Item.takeKind .target (Stretch.tokens p ss ++ more) = (quoted, mid) →
          Item.splitTail mid = (tail, left) →
          (tail.reports kind).filter Diagnostic.isTargetReport = [] := by
  cases h with
  | target hcut htail =>
    refine Or.inr ⟨fun _ _ _ => ⟨_, isQuoted_iff.mpr ⟨_, _, hcut, rfl⟩⟩, ?_⟩
    intro quoted mid tail left kind htake hsplit
    cases htake
    exact htail.filter_isTargetReport _ hmore hsplit kind
  | unclosed hcut =>
    refine Or.inl ⟨rfl, rfl, rfl, fun quoted hquoted => ?_⟩
    obtain ⟨inner, left, hsome, -⟩ := isQuoted_iff.mp hquoted
    rw [hcut] at hsome
    cases hsome
  | plain hquote htail =>
    refine Or.inr ⟨fun hcolon left hrest => absurd (by rw [hrest]; rfl) (hquote hcolon), ?_⟩
    intro quoted mid tail left kind htake hsplit
    obtain ⟨x, others, heq, hx⟩ := Item.exists_head_of_tail (htail.grammar p) hmore
    have hkind : x.kind ≠ .target := fun hk => absurd (hk ▸ hx) (by decide)
    cases htake.symm.trans (takeKind_of_head heq hkind)
    exact htail.filter_isTargetReport p hmore hsplit kind

end Lexer

namespace ReferenceHead

variable {source : Text} {head : ReferenceHead}

/-- What comes after the name of a head is what is attached to it, and phrases come after that. -/
theorem ComesFrom.exists_attachment (h : head.ComesFrom source) :
    ∃ (passed rest after : Text) (colon : Bool) (ss us : List Stretch) (target body : Option Text)
      (before : Option Char) (p : Position) (last : Token),
      source = passed ++ '@' :: (head.named ++ rest) ∧ head.start.place = .after passed ∧
      (colon = true ↔ head.named.getLast? = some ':') ∧
      Lexer.Attachment colon rest ss target body after ∧
      Lexer.Phrases false ((Stretch.join ss).getLast?.or before) after us ∧ last.kind = .eof ∧
      Item.takeKind .target (Stretch.tokens (.after (passed ++ '@' :: head.named)) ss ++
        (Stretch.tokens p us ++ [last])) = (head.target, head.after) := by
  cases h with
  | @phrase passed name rest after before ss us target body last p h hus hlast =>
    obtain ⟨named, hnamed, htake⟩ :=
      h.takeName name ((Position.after passed).advance ['@']) (hus.grammar p hlast)
    have hplace : ((Position.after passed).advance ['@']).advance name =
        .after (passed ++ '@' :: name) := by
      rw [← Position.advance_append, Position.advance_after]
      rfl
    have hbefore : (Stretch.join (.token .referenceStart ['@'] ::
        (Stretch.ofText .identifier name ++ ss))).getLast?.or before =
          (Stretch.join ss).getLast?.or (('@' :: name).getLast?.or before) := by
      rw [Stretch.join_cons, Stretch.join_append, Stretch.join_ofText, Stretch.text,
        ← List.append_assoc, List.getLast?_append, Option.or_assoc]
      rfl
    rw [hbefore] at hus
    rw [hplace] at htake
    rw [ReferenceHead.ofTokens, htake]
    refine ⟨passed, rest, after, _, ss, us, target, body, _, p, last, ?_, rfl, ?_, h, hus, hlast, ?_⟩
    · rw [ReferenceHead.named, hnamed]
    · rw [Lexer.getLast?_at_beq_colon, ReferenceHead.named, hnamed]
    · rw [ReferenceHead.named, hnamed]

/-- A head whose name ends with a colon, and that a quote follows which nothing on its line closes, has
an open quote there. No other head has a tail that is reported as a target that is never closed. -/
theorem ComesFrom.quote (h : head.ComesFrom source) :
    ∃ passed rest, source = passed ++ '@' :: (head.named ++ rest) ∧ head.start.place = .after passed ∧
      ((∃ after own left line lost more, Text.OpensQuote head.named rest after ∧
          after = own ++ left ∧ own.IsUpToReference (some '"') left ∧
          head.HasOpenQuote (.after (passed ++ '@' :: head.named)) own line lost more) ∨
        (∀ after, ¬Text.OpensQuote head.named rest after) ∧
          ∀ tail left kind, Item.splitTail head.after = (tail, left) →
            (tail.reports kind).filter Diagnostic.isTargetReport = []) := by
  obtain ⟨passed, rest, after, colon, ss, us, target, body, before, p, last, hsource, hplace, hcolon, h,
    hus, hlast, htake⟩ := h.exists_attachment
  refine ⟨passed, rest, hsource, hplace, ?_⟩
  rcases h.unclosed_or (.after (passed ++ '@' :: head.named)) (hus.grammar p hlast) with
    ⟨hends, hrest, rfl, hquoted⟩ | ⟨hclosed, hreports⟩
  · obtain ⟨own, left, line, lost, hafter, hown, htaken, hline, hwithin⟩ :=
      hus.exists_recovered p hlast
    obtain ⟨htarget, htokens⟩ := Prod.mk.inj htake
    refine Or.inl ⟨after, own, left, line, lost,
      (Stretch.tokens p us ++ [last]).dropWhile Token.isText, ⟨hcolon.mp hends, hrest, hquoted⟩, hafter,
      hown, htarget.symm, ?_, ?_, ?_, hline, hwithin⟩
    · rw [← htokens, ← htaken, List.takeWhile_append_dropWhile]
      rfl
    · intro t ht
      rw [← htaken] at ht
      simpa [Token.isText] using List.all_eq_true.mp List.all_takeWhile t ht
    · intro hhead
      obtain ⟨t, ht, hkind⟩ := Option.map_eq_some_iff.mp hhead
      have hnot := List.head?_dropWhile_not Token.isText (Stretch.tokens p us ++ [last])
      rw [ht] at hnot
      simp [Token.isText, hkind] at hnot
  · refine Or.inr ⟨fun after hopens => ?_, fun tail left kind hsplit =>
      hreports _ _ tail left kind htake hsplit⟩
    obtain ⟨quoted, hquoted⟩ := hclosed (hcolon.mpr hopens.colon) after hopens.quote
    exact hopens.unclosed quoted hquoted

end ReferenceHead

/-- Whether an outline goes on from another: nothing more is finished, and what is open is still open
and has its text, but for a line of white space that was begun in it. -/
structure Outline.GoesOn (o m : Outline) : Prop where
  /-- No section is finished. -/
  sections : m.sections = o.sections
  /-- No block is finished. -/
  blocks : m.blocks = o.blocks
  /-- No call is added. -/
  apiCalls : m.apiCalls = o.apiCalls
  /-- What is open keeps its text, or its text without the line if there was nothing on it. -/
  collected : (m.openSection = o.openSection ∧ m.openBlock = o.openBlock) ∨
    o.lineBlank = true ∧ m.openSection = (o.edit .dropLine).openSection ∧
      m.openBlock = (o.edit .dropLine).openBlock

/-- An outline goes on past a reference. -/
theorem Outline.goesOn_reference (o : Outline) (found : FormReference) (endsLine : Bool) :
    o.GoesOn (o.reference found endsLine) := by
  have hdropped : o.lineBlank = true → o.GoesOn (edit { o with lineHasReference := true } .dropLine) := by
    intro hblank
    unfold edit
    cases hb : o.openBlock with
    | some b => exact ⟨rfl, rfl, rfl, Or.inr ⟨hblank, by simp [edit, hb], by simp [edit, hb]⟩⟩
    | none =>
      cases hs : o.openSection with
      | some s => exact ⟨rfl, rfl, rfl, Or.inr ⟨hblank, by simp [edit, hb, hs], by simp [edit, hb, hs]⟩⟩
      | none => exact ⟨rfl, rfl, rfl, Or.inl ⟨by simp [hs], by simp [hb]⟩⟩
  unfold reference
  cases endsLine with
  | false => exact ⟨rfl, rfl, rfl, Or.inl ⟨rfl, rfl⟩⟩
  | true =>
    by_cases hblank : o.lineBlank = true
    · obtain ⟨hsections, hblocks, hcalls, hcollected⟩ := hdropped hblank
      simp only [if_pos hblank, if_true]
      exact ⟨hsections, hblocks, hcalls, hcollected⟩
    · simp only [if_neg hblank, if_true]
      exact ⟨rfl, rfl, rfl, Or.inl ⟨rfl, rfl⟩⟩

namespace Item

/-- Text alone is one item a token. -/
theorem ofTokens_texts {ts : List Token} (h : ∀ t ∈ ts, t.kind = .text) (rest : List Token) :
    ofTokens (ts ++ rest) = ts.map .text ++ ofTokens rest := by
  induction ts with
  | nil => rfl
  | cons t ts ih =>
    obtain ⟨ht, hts⟩ := List.forall_mem_cons.mp h
    rw [List.cons_append, ofTokens_text ht, ih hts]
    rfl

end Item

namespace ReferenceHead

/-- What a script gives for a reference with an open quote, which comes after a part of the script. -/
structure RecoversQuote (head : ReferenceHead) (source passed own : Text)
    (line lost more : List Token) (r : Reference) (report : Option Diagnostic) : Prop
    extends head.HasOpenQuote (.after passed) own line lost more where
  /-- The kind is the name with its colons. -/
  kind : r.kind = head.named
  /-- There is no target. -/
  target : r.target = none
  /-- The quote is reported. -/
  report_eq : report = some ((Document.Problem.unterminatedTarget head.named).diagnostic
    (Token.span ⟨.error, ['"'], .after passed⟩))
  /-- The body is what is left of the line with the lines after it, trimmed. -/
  body : r.body = Text.trim (own ++ Draft.textOf lost)
  /-- The body is what is left of the line alone exactly if the lines after it are blank. -/
  body_iff : r.body = Text.trim own ↔ Text.isBlank (Draft.textOf lost) = true
  /-- The reference takes the lines after its own, and what comes after them is read as it is. -/
  items : ∃ lead, Item.ofTokens (Token.ofText source) =
    lead ++ head.withOpenQuote (.after passed) (line ++ lost) :: Item.ofTokens more
  /-- The lines after its own are read as text exactly if there are none. -/
  items_iff : Item.ofTokens (lost ++ more) = Item.ofTokens more ↔ lost = []
  /-- What is open is still open after the reference. -/
  goes_on : ∀ o : Outline, o.GoesOn (o.apply (head.withOpenQuote (.after passed) (line ++ lost)))

/-- Whether a reference and the report on its target are what the items of a script have for a head:
the tail is what comes after the head, and the tokens after it are read on. -/
structure IsGivenIn (head : ReferenceHead) (items : List Item) (r : Reference)
    (report : Option Diagnostic) (tail : Item.Tail) (more : List Token) : Prop where
  /-- The tail is what comes after the head. -/
  split : Item.splitTail head.after = (tail, more)
  /-- The reference is one of the items, and those of the tokens after the tail come next. -/
  items_eq : ∃ lead,
    items = lead ++ .reference head.start head.name head.target tail :: Item.ofTokens more
  /-- The kind is that of the head. -/
  kind : r.kind = head.kind
  /-- The target is that of the head. -/
  target : r.target = head.target.map fun t => Text.trimChar '"' t.text
  /-- The body is that of the tail. -/
  body : r.body = Text.trim tail.body
  /-- The report is the one on the tail. -/
  report_eq : report = ((tail.reports head.kind).filter Diagnostic.isTargetReport).head?

variable {head : ReferenceHead} {source passed own : Text} {line lost more left : List Token}
  {r : Reference} {report : Option Diagnostic} {tail : Item.Tail}

/-- A head with an open quote gives a reference that recovers the text after it. -/
theorem IsGivenIn.recoversQuote
    (h : head.IsGivenIn (Item.ofTokens (Token.ofText source)) r report tail left)
    (hopen : head.HasOpenQuote (.after passed) own line lost more) :
    head.RecoversQuote source passed own line lost more r report := by
  have hsplit : Item.splitTail head.after =
      (.unterminated ⟨.error, ['"'], .after passed⟩ (line ++ lost), more) := by
    rw [hopen.after_eq, Item.splitTail, if_neg (by simp), if_pos rfl,
      Item.splitText_append hopen.texts hopen.stops]
  obtain ⟨rfl, rfl⟩ := Prod.mk.inj (h.split.symm.trans hsplit)
  have hkind : head.kind = head.named := by
    rw [ReferenceHead.kind, hopen.no_target]
    rfl
  have hbody : r.body = Text.trim (own ++ Draft.textOf lost) := by
    rw [h.body, Item.Tail.body, ← hopen.textOf_line]
    simp [Draft.textOf]
  have hlost : ∀ t ∈ lost, t.kind = .text := fun t ht => hopen.texts t (List.mem_append_right line ht)
  exact {
    hopen with
    kind := h.kind.trans hkind
    target := by rw [h.target, hopen.no_target]; rfl
    report_eq := by rw [h.report_eq, hkind]; rfl
    body := hbody
    body_iff := by rw [hbody, Text.trim_append_eq_iff]
    items := by
      obtain ⟨lead, hitems⟩ := h.items_eq
      exact ⟨lead, by rw [hitems, hopen.no_target]; rfl⟩
    items_iff := by
      rw [Item.ofTokens_texts hlost, List.append_left_eq_self, List.map_eq_nil_iff]
    goes_on := fun o => o.goesOn_reference _ _ }

end ReferenceHead

/-- The references of a script and the reports on their targets are what its items have for the
heads. -/
theorem forall₂_isGivenIn (source : Text) :
    List.Forall₂ (fun head x => ∃ tail more,
        head.IsGivenIn (Item.ofTokens (Token.ofText source)) x.1 x.2 tail more)
      (Token.referenceHeads (Token.ofText source))
      ((Item.ofTokens (Token.ofText source)).flatMap (Item.reported Diagnostic.isTargetReport)) := by
  have hgroups := Item.groups_ofText source
  refine hgroups.forall₂_heads_between _ (fun item hmem hne => ?_) ?_
  · rw [Item.reported, Item.references_record_of_not_isReference (hgroups.isWhole item hmem) hne]
    rfl
  · intro lead start name target tail rest hitems hsplit
    have hmem := hitems ▸ List.mem_append_right lead List.mem_cons_self
    have horder := (Token.pairwise_ofText source).sublist (hgroups.sublist hmem)
    obtain ⟨span, -, hrecord⟩ := Item.exists_record_reference fun t ht =>
      Position.le_of_lt ((List.pairwise_cons.mp horder).1 t ht)
    exact ⟨_, by rw [Item.reported, hrecord]; rfl, tail, rest, hsplit, ⟨lead, hitems⟩, rfl, rfl, rfl, rfl⟩

/-- Every open quote of a script is recovered: a quote right after a name that ends with a colon, which
no other quote on the line closes. It is reported where it stands, and there are no other such reports.
The reference keeps its colon and has no target, and its body begins with what is left of the line up to
the next reference on it. All text on the lines after it, up to the next reference, header or statement,
belongs to the body as well and is lost to what is open around it: the body is the rest of the line alone
exactly if that text is blank, and the lines are read as text exactly if there is no such line. What
comes after them is read as always, in the section or the block that is still open. -/
theorem open_quotes_recovered (source : Text) :
    ∃ given : List (Reference × Option Diagnostic),
      given.map Prod.fst = (Parsed.ofText source).document.references ∧
      given.filterMap Prod.snd =
        (Parsed.ofText source).diagnostics.filter Diagnostic.isTargetReport ∧
      List.Forall₂ (fun head x => ∃ passed rest, source = passed ++ '@' :: (head.named ++ rest) ∧
          head.start.place = .after passed ∧
          (∀ after, Text.OpensQuote head.named rest after → ∃ own left line lost more,
            after = own ++ left ∧ own.IsUpToReference (some '"') left ∧
            head.RecoversQuote source (passed ++ '@' :: head.named) own line lost more x.1 x.2) ∧
          ((∀ after, ¬Text.OpensQuote head.named rest after) → x.2 = none))
        (Token.referenceHeads (Token.ofText source)) given := by
  have hgroups := Item.groups_ofText source
  refine ⟨(Item.ofTokens (Token.ofText source)).flatMap (Item.reported Diagnostic.isTargetReport),
    ?_, ?_, ?_⟩
  · have hreferences : (Parsed.ofText source).document.references = _ :=
      congrArg Record.references (Parsed.record_ofText source)
    rw [hreferences, Item.references_records, List.map_flatMap]
    simp only [Item.map_fst_reported]
  · have hreports : (Parsed.ofText source).diagnostics.filter Diagnostic.isLocal = _ :=
      congrArg Record.reports (Parsed.record_ofText source)
    have hlocal : ∀ x : Diagnostic, x.isTargetReport = true → x.isLocal = true := by
      intro x hx
      have hcode : x.code = "E_UNTERMINATED_TARGET".toList := by simpa [Diagnostic.isTargetReport] using hx
      rw [Diagnostic.isLocal, hcode]
      rfl
    have hother : ∀ x : Diagnostic, x.code = "E_MALFORMED_STATEMENT".toList →
        x.isTargetReport = false := fun x hcode => by
      rw [Diagnostic.isTargetReport, hcode]
      rfl
    rw [← Diagnostic.filter_isLocal hlocal, hreports, Item.reports_records, List.filter_flatMap,
      List.filterMap_flatMap]
    exact List.flatMap_congr fun item hmem =>
      hgroups.filterMap_reported hother (Token.pairwise_ofText source) hmem
  · have hboth := (List.forall₂_and_left ..).mpr
      ⟨Token.comesFrom_ofText source, forall₂_isGivenIn source⟩
    refine hboth.imp fun head x hhead => ?_
    obtain ⟨hcomes, tail, more, hgiven⟩ := hhead
    obtain ⟨passed, rest, hsource, hplace, hquote⟩ := hcomes.quote
    refine ⟨passed, rest, hsource, hplace, ?_⟩
    rcases hquote with ⟨after, own, left, line, lost, next, hopens, hafter, hown, hopen⟩ | ⟨hnone, hreports⟩
    · refine ⟨fun other hother => ?_, fun hnone => absurd hopens (hnone after)⟩
      obtain rfl : after = other := (List.cons.inj (hopens.quote.symm.trans hother.quote)).2
      exact ⟨own, left, line, lost, next, hafter, hown, hgiven.recoversQuote hopen⟩
    · refine ⟨fun after hopens => absurd hopens (hnone after), fun _ => ?_⟩
      rw [hgiven.report_eq, hreports _ _ _ hgiven.split]
      rfl

/-- The line after an open quote is taken into its body and is missing from the section. -/
theorem open_quotes_recovered_fails :
    ¬((Parsed.ofText "TASK: t\n@f:\"x\nmore\n".toList).document.references.map (·.body) = ["x".toList] ∧
      (Parsed.ofText "TASK: t\n@f:\"x\nmore\n".toList).document.sections.map (·.body) =
        ["t\nmore".toList]) := by
  decide +kernel

end PromptScript
