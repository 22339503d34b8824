import PromptScript.Proofs.Parsing.Outline

/-!
# Reading on from a place in a script

Each phrase of a script is one item, and the items of what comes after it are those of the text
after it. Only a brace or a quote that is never closed reaches further: the text tokens that come
next are recovered as the body of its reference.
-/

namespace PromptScript

open Token (Grammar)

/-- Whether a token is a fragment of text. -/
def Token.isText (t : Token) : Bool :=
  t.kind == .text

namespace Item

variable {t : Token} {rest : List Token}

/-- The items of tokens are the first one and those of the tokens after it. -/
theorem ofTokens_cons (ht : t.kind ≠ .eof) :
    ofTokens (t :: rest) = (first t rest).1 :: ofTokens (first t rest).2 := by
  rw [ofTokens, if_neg ht]

/-- A text token is an item by itself. -/
theorem ofTokens_text (ht : t.kind = .text) : ofTokens (t :: rest) = .text t :: ofTokens rest := by
  rw [ofTokens_cons (by simp [ht])]
  simp only [first, ht]

/-- A header of a section is an item by itself. -/
theorem ofTokens_header {kind : SectionKind} (ht : t.kind = .sectionKeyword)
    (hkind : SectionKind.ofHeader? t.text = some kind) :
    ofTokens (t :: rest) = .header t kind :: ofTokens rest := by
  rw [ofTokens_cons (by simp [ht])]
  simp only [first, ht, hkind]

/-- A statement is an item with the rest of its line, if that has any text. -/
theorem ofTokens_statement {line : Option Token} (ht : t.kind = .statementKeyword)
    (hline : ∀ x ∈ line, x.kind = .text)
    (hrest : line = none → rest.head?.map (·.kind) ≠ some .text) :
    ofTokens (t :: (line.toList ++ rest)) = .statement t line :: ofTokens rest := by
  rw [ofTokens_cons (by simp [ht])]
  simp only [first, ht, takeKind_toList hline hrest]

/-- Where no brace and no error comes next, nothing follows a target. -/
theorem splitTail_of_grammar (h : Grammar rest) : splitTail rest = (.none, rest) := by
  obtain ⟨t, more, rfl, hkind⟩ := exists_head_of_grammar h
  have hbrace : t.kind ≠ .braceOpen := fun heq => absurd (heq ▸ hkind) (by decide)
  have herror : t.kind ≠ .error := fun heq => absurd (heq ▸ hkind) (by decide)
  simp [splitTail, hbrace, herror]

/-- The kind of a reference by its name and its target. -/
def kindOf (name : Text) (target : Option Text) : Text :=
  if target.isSome then Text.trimEndChar ':' name else name

/-- The tokens left after what is recovered as the body of a reference, if that is not known. -/
def afterBody (body : Option Text) (tokens : List Token) : List Token :=
  match body with
  | some _ => tokens
  | none => tokens.dropWhile Token.isText

/-- The tokens that are recovered as the body of a reference, if that is not known. -/
def recovered (body : Option Text) (tokens : List Token) : List Token :=
  match body with
  | some _ => []
  | none => tokens.takeWhile Token.isText

section

variable {ts rest : List Token} (hts : ∀ t ∈ ts, t.isText = true)
  (hrest : rest.head?.any Token.isText = false)

include hts hrest

/-- Fragments of text are recovered up to the first other token. -/
theorem recovered_append : recovered none (ts ++ rest) = ts := by
  rw [recovered, List.takeWhile_append_of_pos hts]
  cases rest with
  | nil => simp
  | cons x rest =>
    have hx : x.isText = false := hrest
    simp [hx]

/-- Past the fragments of text that are recovered stands the first other token. -/
theorem afterBody_append : afterBody none (ts ++ rest) = rest := by
  rw [afterBody, List.dropWhile_append_of_pos hts]
  cases rest with
  | nil => simp
  | cons x rest =>
    have hx : x.isText = false := hrest
    simp [hx]

end

/-- The reference with a name, a target in quotes and a body, or else recovered tokens. -/
def foundIn (name : Text) (target body : Option Text) (tokens : List Token) : FormReference :=
  .ofParts (kindOf name target) (target.map (Text.trimChar '"'))
    (Text.trim (body.getD (Draft.textOf (recovered body tokens))))

end Item

namespace Lexer

variable {rest after : Text} {ss : List Stretch}

/-- The tokens from a place in running text on are in the grammar. -/
theorem grammar_ahead (lineStart : Bool) (before : Option Char) (p : Position) (rest : Text) :
    Grammar (ahead .text lineStart before p rest).tokens := by
  obtain ⟨ss, h⟩ := exists_phrases lineStart before rest
  rw [h.tokens p]
  exact h.grammar p rfl

/-- The text of the tokens of a body is that of its stretches. -/
theorem textOf_tokens {p : Position} {depth : Nat} (h : Body depth rest ss after) :
    Draft.textOf (Stretch.tokens p ss) = Stretch.join ss := by
  induction h generalizing p with
  | close => rfl
  | leave _ _ ih | enter _ ih | fragment _ _ _ ih =>
    rw [Stretch.tokens, Draft.textOf, List.flatMap_cons, ← Draft.textOf, ih]
    rfl

/-- The last stretch of a body is its closing brace. -/
theorem Body.last {depth : Nat} (h : Body depth rest ss after) :
    ∃ init, ss = init ++ [.token .braceClose ['}']] := by
  induction h with
  | close => exact ⟨[], rfl⟩
  | leave _ _ ih | enter _ ih | fragment _ _ _ ih =>
    obtain ⟨init, rfl⟩ := ih
    exact ⟨_ :: init, rfl⟩

/-- The tokens of a body are taken through its closing brace, and those inside hold its text. -/
theorem Body.split (h : Body 1 rest ss after) (p : Position) (more : List Token) :
    ∃ ts closing inner, Item.splitBraced 1 (Stretch.tokens p ss ++ more) = (ts, some closing, more) ∧
      Stretch.tokens p ss = ts ++ [closing] ∧ Draft.textOf ts = inner ∧
      Stretch.join ss = inner ++ ['}'] := by
  obtain ⟨ts, closing, hsplit, htokens⟩ :=
    Item.splitBraced_append (h.grammar (Nat.le_refl 1) p) more
  refine ⟨ts, closing, Draft.textOf ts, hsplit, htokens, rfl, ?_⟩
  have hclosing : closing.text = ['}'] := by
    obtain ⟨init, rfl⟩ := h.last
    rw [Stretch.tokens_append] at htokens
    rw [← List.singleton_inj.mp (List.append_inj_right' htokens rfl)]
  rw [← textOf_tokens h, htokens, ← hclosing]
  simp [Draft.textOf]

/-- The tokens of what follows a target are the tail of a reference with its body. -/
theorem Tail.split {body : Option Text} (h : Tail rest ss body after) (p : Position)
    {more : List Token} (hmore : Grammar more) :
    ∃ tail, Item.splitTail (Stretch.tokens p ss ++ more) = (tail, Item.afterBody body more) ∧
      tail.body = body.getD (Draft.textOf (Item.recovered body more)) ∧
      tail.endsLine = (Item.recovered body more).getLast?.any Token.endsLine := by
  cases h with
  | bare => exact ⟨.none, Item.splitTail_of_grammar hmore, rfl, rfl⟩
  | unclosed =>
    rw [tokens_ofGap]
    exact ⟨.unterminated _ _, rfl, rfl, rfl⟩
  | @braced space _ inner _ _ hspace hbody hinner =>
    rw [tokens_ofGap]
    obtain ⟨ts, closing, found, hsplit, -, htext, hjoin⟩ :=
      hbody.split ((p.advance space).advance ['{']) more
    refine ⟨.braced ⟨.braceOpen, ['{'], p.advance space⟩ ts (some closing), ?_, ?_, rfl⟩
    · simp only [Stretch.tokens, List.cons_append, Item.splitTail, hsplit]
      rfl
    · rw [hinner] at hjoin
      exact htext.trans (List.append_cancel_right hjoin).symm

/-- A token is not taken if the first one is of another kind. -/
theorem takeKind_of_head {kind : Token.Kind} {x : Token} {tokens more : List Token}
    (heq : tokens = x :: more) (hx : x.kind ≠ kind) : Item.takeKind kind tokens = (none, tokens) := by
  rw [heq, Item.takeKind, if_neg hx]

/-- The tokens of what is attached to a name are a target and the tail of a reference. -/
theorem Attachment.split {colon : Bool} {target body : Option Text}
    (h : Attachment colon rest ss target body after) (p : Position) {more : List Token}
    (hmore : Grammar more) :
    ∃ quoted tail mid, Item.takeKind .target (Stretch.tokens p ss ++ more) = (quoted, mid) ∧
      Item.splitTail mid = (tail, Item.afterBody body more) ∧
      quoted.map (·.text) = target ∧
      tail.body = body.getD (Draft.textOf (Item.recovered body more)) ∧
      tail.endsLine = (Item.recovered body more).getLast?.any Token.endsLine := by
  cases h with
  | @target rest text mid after ss body hcut htail =>
    obtain ⟨tail, hsplit, hbody, hends⟩ := htail.split (p.advance ('"' :: text)) hmore
    exact ⟨some ⟨.target, '"' :: text, p⟩, tail, _, rfl, hsplit, rfl, hbody, hends⟩
  | unclosed =>
    exact ⟨none, .unterminated ⟨.error, ['"'], p⟩ (Item.recovered none more),
      ⟨.error, ['"'], p⟩ :: more, rfl, rfl, rfl, rfl, rfl⟩
  | plain _ htail =>
    obtain ⟨tail, hsplit, hbody, hends⟩ := htail.split p hmore
    obtain ⟨x, others, heq, hx⟩ := Item.exists_head_of_tail (htail.grammar p) hmore
    have hkind : x.kind ≠ .target := fun hk => absurd (hk ▸ hx) (by decide)
    exact ⟨none, tail, _, takeKind_of_head heq hkind, hsplit, rfl, hbody, hends⟩

/-- What is attached to a name does not begin with another name. -/
theorem Attachment.takeKind_identifier {colon : Bool} {target body : Option Text}
    (h : Attachment colon rest ss target body after) (p : Position) {more : List Token}
    (hmore : Grammar more) : Item.takeKind .identifier (Stretch.tokens p ss ++ more) =
      (none, Stretch.tokens p ss ++ more) := by
  cases h with
  | target => rfl
  | unclosed => rfl
  | plain _ htail =>
    obtain ⟨x, others, heq, hx⟩ := Item.exists_head_of_tail (htail.grammar p) hmore
    exact takeKind_of_head heq fun hk => absurd (hk ▸ hx) (by decide)

/-- The name of a reference is taken, and what is attached to it is left. -/
theorem Attachment.takeName {colon : Bool} {target body : Option Text}
    (h : Attachment colon rest ss target body after) (name : Text) (p : Position)
    {more : List Token} (hmore : Grammar more) :
    ∃ named : Option Token, (named.map (·.text)).getD [] = name ∧
      Item.takeKind .identifier
          (Stretch.tokens p (Stretch.ofText .identifier name ++ ss) ++ more) =
        (named, Stretch.tokens (p.advance name) ss ++ more) := by
  cases name with
  | nil => exact ⟨none, rfl, h.takeKind_identifier _ hmore⟩
  | cons c name => exact ⟨some ⟨.identifier, c :: name, p⟩, rfl, rfl⟩

/-- The tokens of a reference are one item. -/
theorem Attachment.ofTokens {colon : Bool} {target body : Option Text}
    (h : Attachment colon rest ss target body after) (name : Text) (p : Position)
    {more : List Token} (hmore : Grammar more) :
    ∃ start named quoted tail,
      Item.ofTokens (Stretch.tokens p
          (.token .referenceStart ['@'] :: (Stretch.ofText .identifier name ++ ss)) ++ more) =
        .reference start named quoted tail :: Item.ofTokens (Item.afterBody body more) ∧
      Item.found named quoted tail = Item.foundIn name target body more ∧
      tail.endsLine = (Item.recovered body more).getLast?.any Token.endsLine := by
  obtain ⟨quoted, tail, mid, htarget, htail, hquoted, hbody, hends⟩ :=
    h.split ((p.advance ['@']).advance name) hmore
  obtain ⟨named, hnamed, htake⟩ := h.takeName name (p.advance ['@']) hmore
  refine ⟨⟨.referenceStart, ['@'], p⟩, named, quoted, tail, ?_, ?_, hends⟩
  · rw [Stretch.tokens, List.cons_append, Item.ofTokens_cons (by simp)]
    simp only [Item.first, htake, htarget, htail]
  · unfold Item.found Item.foundIn Item.kindOf
    rw [hnamed, hbody, ← hquoted, Option.map_map, Option.isSome_map]
    rfl

/-- The lexer in running text past a text that it takes. -/
def past (l : Lexer) (text : Text) (lineStart : Bool) (rest : Text) : Lexer :=
  ahead .text lineStart (text.getLast?.or l.before) (l.place.advance text) rest

/-- Two texts in a row are passed as one text is. -/
theorem past_past (l : Lexer) (s t : Text) (ls lineStart : Bool) (mid rest : Text) :
    (l.past s ls mid).past t lineStart rest = l.past (s ++ t) lineStart rest := by
  simp only [past, ahead, List.getLast?_append, Option.or_assoc, Position.advance_append]

/-- The tokens from a place on are those of the phrase there and those of the text after it. -/
theorem tokens_of_reads {l : Lexer} {lineStart : Bool} (h : Reads l ss lineStart after) :
    l.tokens = Stretch.tokens l.place ss ++ (l.past (Stretch.join ss) lineStart after).tokens :=
  h

/-- The tokens from any place between phrases on are in the grammar. -/
theorem grammar_past (l : Lexer) (text : Text) (lineStart : Bool) (rest : Text) :
    Grammar (l.past text lineStart rest).tokens :=
  grammar_ahead ..

variable {l : Lexer} {lineStart : Bool}

/-- The items from a fragment of text on. -/
theorem items_text {t : Text} (h : Reads l [.token .text t] lineStart after) :
    ∃ x : Token, x.text = t ∧
      Item.ofTokens l.tokens = .text x :: Item.ofTokens (l.past t lineStart after).tokens := by
  have htokens : l.tokens = ⟨.text, t, l.place⟩ :: (l.past t lineStart after).tokens := by
    rw [tokens_of_reads h]
    simp [Stretch.tokens, Stretch.text]
  refine ⟨⟨.text, t, l.place⟩, rfl, ?_⟩
  rw [htokens]
  exact Item.ofTokens_text rfl

/-- The items from a header on. -/
theorem items_header {t : Text} {kind : SectionKind}
    (h : Reads l [.token .sectionKeyword t] lineStart after)
    (hkind : SectionKind.ofHeader? t = some kind) :
    ∃ x : Token,
      Item.ofTokens l.tokens = .header x kind :: Item.ofTokens (l.past t lineStart after).tokens := by
  have htokens : l.tokens = ⟨.sectionKeyword, t, l.place⟩ :: (l.past t lineStart after).tokens := by
    rw [tokens_of_reads h]
    simp [Stretch.tokens, Stretch.text]
  refine ⟨⟨.sectionKeyword, t, l.place⟩, ?_⟩
  rw [htokens]
  exact Item.ofTokens_header rfl hkind

/-- The items from a statement on. -/
theorem items_statement {t line : Text}
    (h : Reads l (.token .statementKeyword t :: Stretch.ofText .text line) lineStart after)
    (hend : line = [] → after = []) :
    ∃ (x : Token) (y : Option Token), x.text = t ∧
      Text.trim ((y.map (·.text)).getD []) = Text.trim line ∧
      Item.ofTokens l.tokens =
        .statement x y :: Item.ofTokens (l.past (t ++ line) lineStart after).tokens := by
  cases line with
  | nil =>
    have htokens : l.tokens = ⟨.statementKeyword, t, l.place⟩ ::
        (Option.toList none ++ (l.past (t ++ []) lineStart after).tokens) := by
      rw [tokens_of_reads h]
      simp [Stretch.ofText, Stretch.tokens, Stretch.text]
    refine ⟨⟨.statementKeyword, t, l.place⟩, none, rfl, rfl, ?_⟩
    rw [htokens, hend rfl]
    refine Item.ofTokens_statement rfl (by simp) fun _ => ?_
    rw [past, tokens_ahead_nil]
    simp
  | cons c line =>
    have htokens : l.tokens = ⟨.statementKeyword, t, l.place⟩ ::
        (Option.toList (some ⟨.text, c :: line, l.place.advance t⟩) ++
          (l.past (t ++ c :: line) lineStart after).tokens) := by
      rw [tokens_of_reads h]
      simp [Stretch.ofText, Stretch.tokens, Stretch.text]
    refine ⟨⟨.statementKeyword, t, l.place⟩, some ⟨.text, c :: line, l.place.advance t⟩, rfl, rfl, ?_⟩
    rw [htokens]
    exact Item.ofTokens_statement rfl (by simp) (by simp)

end Lexer

namespace Outline

open Lexer (Reads Attachment)

/-- The outline after the items of the script from a place on. -/
def read (o : Outline) (l : Lexer) : Outline :=
  o.applyAll (Item.ofTokens l.tokens)

variable {o : Outline} {l : Lexer} {lineStart : Bool} {after : Text}

/-- A header is applied, and then what comes after it. -/
theorem read_header {t : Text} {kind : SectionKind}
    (h : Reads l [.token .sectionKeyword t] lineStart after)
    (hkind : SectionKind.ofHeader? t = some kind) :
    o.read l = (o.header kind).read (l.past t lineStart after) := by
  obtain ⟨x, hitems⟩ := Lexer.items_header h hkind
  rw [read, hitems]
  rfl

/-- A statement depends on the rest of its line only up to white space around it. -/
theorem statement_congr {t : Text} {y : Option Text} {line : Text}
    (h : Text.trim (y.getD []) = Text.trim line) : o.statement t y = o.statement t (some line) := by
  unfold statement
  cases y with
  | none =>
    have hnil : Text.trim line = [] := h.symm
    simp [hnil]
  | some y => rw [Option.map_some, Option.map_some, show Text.trim y = Text.trim line from h]

/-- A statement is applied with its line, and then what comes after it. -/
theorem read_statement {t line : Text}
    (h : Reads l (.token .statementKeyword t :: Stretch.ofText .text line) lineStart after)
    (hend : line = [] → after = []) :
    o.read l = (o.statement t (some line)).read (l.past (t ++ line) lineStart after) := by
  obtain ⟨x, y, rfl, hline, hitems⟩ := Lexer.items_statement h hend
  rw [read, hitems, applyAll_cons, apply, statement_congr hline]
  rfl

/-- A reference is applied with what is recovered as its body, and then the items that are left of
what comes after it. -/
theorem read_reference {colon : Bool} {name rest : Text} {ss : List Stretch}
    {target body : Option Text} (hattached : Attachment colon rest ss target body after)
    (h : Reads l (.token .referenceStart ['@'] :: (Stretch.ofText .identifier name ++ ss)) false
      after) :
    ∃ tokens, tokens = (l.past ('@' :: name ++ Stretch.join ss) false after).tokens ∧
      o.read l = (o.reference (Item.foundIn name target body tokens)
        ((Item.recovered body tokens).getLast?.any Token.endsLine)).applyAll
          (Item.ofTokens (Item.afterBody body tokens)) := by
  refine ⟨_, rfl, ?_⟩
  have hmore := Lexer.grammar_past l ('@' :: name ++ Stretch.join ss) false after
  obtain ⟨start, named, quoted, tail, hitems, hfound, hends⟩ :=
    hattached.ofTokens name l.place hmore
  have hjoin : Stretch.join (.token .referenceStart ['@'] ::
      (Stretch.ofText .identifier name ++ ss)) = '@' :: name ++ Stretch.join ss := by
    simp [Stretch.text]
  rw [read, Lexer.tokens_of_reads h, hjoin, hitems, applyAll_cons, apply, hfound, hends]

end Outline

end PromptScript
