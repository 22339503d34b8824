import PromptScript.Proofs.Parsing.Checked

/-!
# Every step of the parser in place

A draft and the tokens that are left stand for a parser in place: a text with its current line apart
is one text with the offset where that line begins. Taking a token with what belongs to it is then
applying an item, and no check fails on the way. So the run over a list of tokens gives the document
of their items.
-/

namespace PromptScript

namespace CheckedBuffer

/-- A text with its current line apart, in place. -/
def ofBuffer (b : TextBuffer) : CheckedBuffer :=
  ⟨b.text, Text.byteLength b.settled⟩

variable (b : TextBuffer)

/-- Text is added in place as it is added to a text with its current line apart. -/
theorem push_ofBuffer (t : Text) : (ofBuffer b).push t = ofBuffer (b.push t) := by
  unfold push TextBuffer.push ofBuffer
  split
  · simp [TextBuffer.text]
  · simp [TextBuffer.text]

/-- The first line that is added to nothing is all of the text. -/
theorem pushLine_empty (t : Text) : empty.pushLine t = ofBuffer (.ofLine t) := by
  have hempty : empty = ofBuffer .empty := rfl
  unfold pushLine TextBuffer.ofLine
  split
  · exact hempty
  · rw [hempty, push_ofBuffer, push_ofBuffer]

/-- The current line begins where a character ends, so dropping it cuts the text there. -/
theorem dropLine?_ofBuffer : (ofBuffer b).dropLine? = some (ofBuffer b.dropLine) := by
  have hkept : Text.truncate? (b.settled ++ b.pending) (Text.byteLength b.settled) =
      some b.settled := Text.truncate?_append b.settled b.pending
  simp [dropLine?, ofBuffer, TextBuffer.text, TextBuffer.dropLine, hkept]

/-- The finished text is the same in place. -/
theorem finish_ofBuffer : (ofBuffer b).finish = b.finish := rfl

end CheckedBuffer

namespace Draft

/-- A brace that lies too deep in the body of a reference of a kind is reported, if there is one. -/
def reportDeep (d : Draft) (kind : Text) (brace : Option Token) : Draft :=
  match brace with
  | some t => d.report (.deepBody kind) t.span
  | none => d

/-- What tokens cover is covered one token after the other. -/
theorem coverTokens_cons (span : Span) (t : Token) (ts : List Token) :
    coverTokens span (t :: ts) = coverTokens (span.merge t.span) ts := rfl

/-- The text of tokens is that of the first one and then that of the others. -/
theorem textOf_cons (t : Token) (ts : List Token) : textOf (t :: ts) = t.text ++ textOf ts :=
  List.flatMap_cons

end Draft

/-- An open section with its text in place. -/
def CheckedSection.ofOpen (s : OpenSection) : CheckedSection :=
  ⟨s.kind, .ofBuffer s.body, s.span⟩

namespace CheckedBlock

/-- An open block with its texts in place. -/
def ofOpen (b : OpenBlock) : CheckedBlock :=
  ⟨b.opening, .ofBuffer b.body, b.otherwise.map .ofBuffer, b.span⟩

/-- A checked change of texts that acts as a change changes an open block in place as that does. -/
theorem edit?_ofOpen (b : OpenBlock) {change? : CheckedBuffer → Option CheckedBuffer}
    {change : TextBuffer → TextBuffer}
    (h : ∀ buffer, change? (.ofBuffer buffer) = some (.ofBuffer (change buffer))) :
    (ofOpen b).edit? change? = some (ofOpen (b.edit change)) := by
  obtain ⟨opening, body, otherwise, span⟩ := b
  cases otherwise with
  | none => simp [edit?, ofOpen, OpenBlock.edit, h]
  | some other => simp [edit?, ofOpen, OpenBlock.edit, h]

/-- The block of an open one is the same in place. -/
theorem block_ofOpen (b : OpenBlock) : (ofOpen b).block = b.block := by
  obtain ⟨opening, body, otherwise, span⟩ := b
  cases otherwise <;> rfl

end CheckedBlock

namespace CheckedParser

/-- The parser in place for a draft and the tokens that are left. -/
def ofDraft (tokens : List Token) (d : Draft) : CheckedParser where
  tokens := tokens
  document := d.document
  diagnostics := d.diagnostics
  openSection := d.openSection.map .ofOpen
  openBlock := d.openBlock.map .ofOpen
  lineBlank := d.lineBlank
  lineHasReference := d.lineHasReference

variable (tokens rest : List Token) (d : Draft)

/-- The parser in place has the tokens that are left. -/
@[simp] theorem tokens_ofDraft : (ofDraft tokens d).tokens = tokens := rfl

/-- The open block of the parser in place is that of the draft. -/
@[simp] theorem openBlock_ofDraft : (ofDraft tokens d).openBlock = d.openBlock.map .ofOpen := rfl

/-- The parser in place has seen as much ink on its line as the draft. -/
@[simp] theorem lineBlank_ofDraft : (ofDraft tokens d).lineBlank = d.lineBlank := rfl

/-- The parser in place has seen a reference on its line if the draft has. -/
@[simp] theorem lineHasReference_ofDraft :
    (ofDraft tokens d).lineHasReference = d.lineHasReference := rfl

/-- A report in place is a report of the draft. -/
@[simp] theorem report_ofDraft (problem : Document.Problem) (span : Span) :
    (ofDraft tokens d).report problem span = ofDraft tokens (d.report problem span) := rfl

/-- What is known of the line is set in place as in the draft. -/
@[simp] theorem setLine_ofDraft (blank hasReference : Bool) :
    (ofDraft tokens d).setLine blank hasReference =
      ofDraft tokens (d.setLine blank hasReference) := rfl

/-- Passing tokens in place leaves the draft as it is. -/
@[simp] theorem past_ofDraft : (ofDraft tokens d).past rest = ofDraft rest d := rfl

/-- A checked change of texts that acts as a change changes the parser in place as that changes the
draft. -/
theorem edit?_ofDraft {change? : CheckedBuffer → Option CheckedBuffer}
    {change : TextBuffer → TextBuffer}
    (h : ∀ buffer, change? (.ofBuffer buffer) = some (.ofBuffer (change buffer))) :
    (ofDraft tokens d).edit? change? = some (ofDraft tokens (d.edit change)) := by
  cases hb : d.openBlock with
  | some b => simp [edit?, Draft.edit, ofDraft, hb, CheckedBlock.edit?_ofOpen b h]
  | none =>
    cases hs : d.openSection with
    | some s => simp [edit?, Draft.edit, ofDraft, hb, hs, CheckedSection.ofOpen, h]
    | none => simp [edit?, Draft.edit, ofDraft, hb, hs]

/-- Dropping the current line in place cuts where the line begins, so the check holds. -/
theorem edit?_dropLine : (ofDraft tokens d).edit? CheckedBuffer.dropLine? =
    some (ofDraft tokens (d.edit .dropLine)) :=
  edit?_ofDraft tokens d CheckedBuffer.dropLine?_ofBuffer

/-- Adding text in place needs no check. -/
theorem edit?_push (t : Text) : ((ofDraft tokens d).edit? fun buffer => some (buffer.push t)) =
    some (ofDraft tokens (d.edit (·.push t))) :=
  edit?_ofDraft tokens d fun buffer => congrArg some (CheckedBuffer.push_ofBuffer buffer t)

/-- A section ends in place as in the draft. -/
@[simp] theorem finishSection_ofDraft :
    (ofDraft tokens d).finishSection = ofDraft tokens d.finishSection := by
  cases hs : d.openSection with
  | some s =>
    simp [finishSection, Draft.finishSection, ofDraft, hs, CheckedSection.ofOpen,
      CheckedBuffer.finish_ofBuffer]
  | none => simp [finishSection, Draft.finishSection, ofDraft, hs]

/-- A block is added in place as to the draft. -/
@[simp] theorem addBlock_ofDraft (block : Block) (span : Span) :
    (ofDraft tokens d).addBlock block span = ofDraft tokens (d.addBlock block span) := rfl

/-- An unfinished block is closed in place as in the draft. -/
@[simp] theorem closeUnfinished_ofDraft :
    (ofDraft tokens d).closeUnfinished = ofDraft tokens d.closeUnfinished := by
  cases hb : d.openBlock with
  | some b =>
    have hspan : (CheckedBlock.ofOpen b).span = b.span := rfl
    simp [closeUnfinished, Draft.closeUnfinished, hb, hspan, CheckedBlock.block_ofOpen]
  | none => simp [closeUnfinished, Draft.closeUnfinished, hb]

/-- All that is open ends alike. -/
theorem close_ofDraft :
    (ofDraft tokens d).finishSection.closeUnfinished = ofDraft tokens d.close := by
  rw [finishSection_ofDraft, closeUnfinished_ofDraft, Draft.close]

/-- A section is extended in place as in the draft. -/
@[simp] theorem extendSection_ofDraft (span : Span) :
    (ofDraft tokens d).extendSection span = ofDraft tokens (d.extendSection span) := by
  cases hs : d.openSection with
  | some s => simp [extendSection, Draft.extendSection, ofDraft, hs, CheckedSection.ofOpen]
  | none => simp [extendSection, Draft.extendSection, ofDraft, hs]

/-- The next token is taken as an item takes it. -/
theorem nextIf_ofDraft (kind : Token.Kind) : (ofDraft tokens d).nextIf kind =
    ((Item.takeKind kind tokens).1, ofDraft (Item.takeKind kind tokens).2 d) := by
  cases tokens with
  | nil => rfl
  | cons t rest =>
    rw [nextIf, Item.takeKind, tokens_ofDraft]
    dsimp only
    split <;> rfl

/-- What is passed is what a stray token takes with it. -/
theorem skip_ofDraft : (ofDraft tokens d).skip rest = ofDraft (Item.splitSkipped rest).2
    (if (Item.splitSkipped rest).1.getLast?.any Token.endsLine then d.setLine true false
      else d) := by
  induction rest with
  | nil => rfl
  | cons t rest ih =>
    rw [skip, Item.splitSkipped]
    by_cases hresumes : Item.resumes t = true
    · simp [hresumes]
    · by_cases hends : t.endsLine = true
      · simp [hresumes, hends]
      · have hlast : ((t :: (Item.splitSkipped rest).1).getLast?.any Token.endsLine) =
            (Item.splitSkipped rest).1.getLast?.any Token.endsLine := by
          cases (Item.splitSkipped rest).1 with
          | nil => simpa using hends
          | cons u us => rw [List.getLast?_cons_cons]
        simp only [hresumes, hends, if_false, ih, hlast, Bool.false_eq_true]

/-- A token that the grammar does not allow is taken as a stray item. -/
theorem unexpected_ofDraft (t : Token) :
    (ofDraft tokens (if t.kind = .sectionKeyword then d.closeAll else d)).unexpected t =
      ofDraft (Item.strayItem t tokens).2 (d.apply (Item.strayItem t tokens).1) := by
  rw [unexpected, Item.strayItem, report_ofDraft, tokens_ofDraft]
  by_cases hends : t.endsLine = true
  · simp [hends, Draft.apply, Draft.stray]
  · simp [hends, Draft.apply, Draft.stray, skip_ofDraft]

/-- A header opens its section; one that names no section is a stray item. -/
theorem header_ofDraft {t : Token} (ht : t.kind = .sectionKeyword) :
    (ofDraft tokens d).header t =
      ofDraft (Item.first t tokens).2 (d.apply (Item.first t tokens).1) := by
  have hclosed : (ofDraft tokens d).finishSection.closeUnfinished.setLine false false =
      ofDraft tokens d.closeAll := congrArg (·.setLine false false) (close_ofDraft tokens d)
  rw [header, Item.first, ht, hclosed]
  cases SectionKind.ofHeader? t.text with
  | some kind => rfl
  | none =>
    have hstray := unexpected_ofDraft tokens d t
    rwa [if_pos ht] at hstray

/-- A fragment of text is taken as an item. -/
theorem text?_ofDraft (t : Token) :
    (ofDraft tokens d).text? t = some (ofDraft tokens (d.text t)) := by
  rw [text?, Draft.text, lineBlank_ofDraft, lineHasReference_ofDraft]
  split
  · split
    · have hedit : { d with lineHasReference := false }.edit .dropLine =
          { d.edit .dropLine with lineHasReference := false } := by
        obtain ⟨_, _, openSection, openBlock, _, _⟩ := d
        cases openBlock <;> cases openSection <;> rfl
      exact (edit?_dropLine tokens { d with lineHasReference := false }).trans (by rw [hedit])
    · cases hb : d.openBlock with
      | some b =>
        have hedit : d.edit (·.push t.text) =
            { d with openBlock := some (b.edit (·.push t.text)) } := by simp [Draft.edit, hb]
        simp only [openBlock_ofDraft, hb, Option.map_some, edit?_push, hedit]
      | none =>
        simp only [openBlock_ofDraft, hb, Option.map_none, finishSection_ofDraft]
  · have hextended : (if t.isBlank = true then ofDraft tokens d
        else (ofDraft tokens d).extendSection t.span) =
          ofDraft tokens (if t.isBlank then d else d.extendSection t.span) := by
      rw [extendSection_ofDraft]
      split <;> rfl
    simp only [hextended, edit?_push, Option.bind_eq_bind, Option.bind_some, setLine_ofDraft]
    split <;> rfl

/-- A block is opened in place as in the draft. -/
@[simp] theorem openNew_ofDraft (opening : Opening) (span : Span) (rest : Text) :
    (ofDraft tokens d).openNew opening span rest =
      ofDraft tokens (d.openNew opening span rest) := by
  cases hb : d.openBlock with
  | some b => simp [openNew, Draft.openNew, hb]
  | none =>
    simp only [openNew, Draft.openNew, openBlock_ofDraft, hb, Option.map_none,
      CheckedBuffer.pushLine_empty]
    rfl

/-- IF acts in place as on the draft. -/
@[simp] theorem conditional_ofDraft (span : Span) (arguments : Text) :
    (ofDraft tokens d).conditional span arguments =
      ofDraft tokens (d.conditional span arguments) := by
  unfold conditional Draft.conditional
  cases Text.splitWord? "THEN".toList arguments with
  | none => simp
  | some parts =>
    obtain ⟨condition, rest⟩ := parts
    cases condition <;> simp

/-- FOR EACH acts in place as on the draft. -/
@[simp] theorem forEach_ofDraft (span : Span) (arguments : Text) :
    (ofDraft tokens d).forEach span arguments = ofDraft tokens (d.forEach span arguments) := by
  unfold forEach Draft.forEach
  cases Draft.repetition? arguments <;> simp

/-- ELSE acts in place as on the draft. -/
@[simp] theorem otherwise_ofDraft (span : Span) (arguments : Text) :
    (ofDraft tokens d).otherwise span arguments =
      ofDraft tokens (d.otherwise span arguments) := by
  cases hb : d.openBlock with
  | none => simp [otherwise, Draft.otherwise, hb]
  | some b =>
    obtain ⟨opening, body, other, opened⟩ := b
    cases opening with
    | conditional condition =>
      cases other with
      | none =>
        simp only [otherwise, Draft.otherwise, openBlock_ofDraft, hb, Option.map_some,
          CheckedBlock.ofOpen, Option.map_none, CheckedBuffer.pushLine_empty]
        rfl
      | some text => simp [otherwise, Draft.otherwise, hb, CheckedBlock.ofOpen]
    | forEach item collection =>
      simp [otherwise, Draft.otherwise, hb, CheckedBlock.ofOpen]
    | onError => simp [otherwise, Draft.otherwise, hb, CheckedBlock.ofOpen]

/-- END acts in place as on the draft. -/
@[simp] theorem finish_ofDraft (keyword span : Span) :
    (ofDraft tokens d).finish keyword span = ofDraft tokens (d.finish keyword span) := by
  cases hb : d.openBlock with
  | none => simp [finish, Draft.finish, hb]
  | some b =>
    have hspan : (CheckedBlock.ofOpen b).span = b.span := rfl
    simp [finish, Draft.finish, hb, hspan, CheckedBlock.block_ofOpen]

/-- CALL API acts in place as on the draft. -/
@[simp] theorem callApi_ofDraft (span : Span) (arguments : Text) :
    (ofDraft tokens d).callApi span arguments = ofDraft tokens (d.callApi span arguments) := by
  unfold callApi Draft.callApi
  cases ApiCall.ofText arguments <;> rfl

/-- A statement is taken with the rest of its line. -/
theorem statement_ofDraft {t : Token} (ht : t.kind = .statementKeyword) :
    (ofDraft tokens d).statement t =
      ofDraft (Item.first t tokens).2 (d.apply (Item.first t tokens).1) := by
  rw [Item.first, ht, statement, nextIf_ofDraft]
  generalize Item.takeKind .text tokens = taken
  obtain ⟨rest, after⟩ := taken
  cases rest <;>
    · simp only [Draft.apply, Draft.statement, finishSection_ofDraft, setLine_ofDraft]
      cases Draft.statementWords.lookup (Text.words t.text) with
      | none => simp
      | some word => cases word <;> simp

/-- The body of a reference is read as it is taken into an item. The first brace that lies too deep
is reported, unless one was reported before. -/
theorem body?_ofDraft (kind : Text) {depth : Nat} (hdepth : 1 ≤ depth) (reported : Bool)
    (body : Text) (span : Span) :
    (ofDraft tokens d).body? kind depth reported body span rest =
      some (ofDraft (Item.splitBraced depth rest).2.2
          (if reported then d
            else d.reportDeep kind (Draft.deepBrace? depth (Item.splitBraced depth rest).1)),
        body ++ Draft.textOf (Item.splitBraced depth rest).1,
        Draft.coverTokens span ((Item.splitBraced depth rest).1 ++
          (Item.splitBraced depth rest).2.1.toList)) := by
  induction rest generalizing d depth reported body span with
  | nil =>
    simp [body?, Item.splitBraced, Draft.deepBrace?, Draft.textOf, Draft.coverTokens,
      Draft.reportDeep]
  | cons t rest ih =>
    rw [body?, Item.splitBraced]
    -- only an opening brace inside two others can be the first that lies too deep
    by_cases hopen : t.kind = .braceOpen
    · have hreported : (ofDraft tokens d).report (.deepBody kind) t.span =
          ofDraft tokens (d.report (.deepBody kind) t.span) := rfl
      by_cases hdeep : 2 ≤ depth
      · have hbelow : 2 < depth + 1 := Nat.lt_succ_of_le hdeep
        cases reported with
        | true =>
          simp [hopen, ih _ (Nat.le_add_left 1 depth), Draft.coverTokens_cons, Draft.textOf_cons]
        | false =>
          simp [hopen, hbelow, hreported, ih _ (Nat.le_add_left 1 depth), Draft.coverTokens_cons,
            Draft.textOf_cons, Draft.deepBrace?, hdeep, Draft.reportDeep]
      · have hbelow : ¬ 2 < depth + 1 := by omega
        simp [hopen, hbelow, ih _ (Nat.le_add_left 1 depth), Draft.coverTokens_cons,
          Draft.textOf_cons, Draft.deepBrace?, hdeep]
    · by_cases hclose : t.kind = .braceClose
      · by_cases hlast : depth ≤ 1
        · have hzero : depth - 1 = 0 := by omega
          simp [hclose, hlast, hzero, sub?_of_le hdepth, Draft.deepBrace?, Draft.textOf,
            Draft.coverTokens, Draft.reportDeep]
        · have hinside : depth - 1 ≠ 0 := by omega
          simp [hclose, hlast, hinside, sub?_of_le hdepth, ih _ (show 1 ≤ depth - 1 by omega),
            Draft.coverTokens_cons, Draft.textOf_cons, Draft.deepBrace?]
      · by_cases heof : t.kind = .eof
        · simp [heof, Draft.deepBrace?, Draft.textOf, Draft.coverTokens, Draft.reportDeep]
        · simp [hopen, hclose, heof, ih _ hdepth, Draft.coverTokens_cons, Draft.textOf_cons,
            Draft.deepBrace?]

/-- What is taken as the body of a reference that is never closed is the run of text behind it. -/
theorem recover_eq (body : Text) (span : Span) (endsLine : Bool) :
    recover body span endsLine tokens =
      (body ++ Draft.textOf (Item.splitText tokens).1,
        Draft.coverTokens span (Item.splitText tokens).1,
        ((Item.splitText tokens).1.getLast?.map Token.endsLine).getD endsLine,
        (Item.splitText tokens).2) := by
  induction tokens generalizing body span endsLine with
  | nil => simp [recover, Item.splitText, Draft.textOf, Draft.coverTokens]
  | cons t rest ih =>
    rw [recover]
    by_cases htext : t.kind = .text
    · have hsplit : Item.splitText (t :: rest) =
          (t :: (Item.splitText rest).1, (Item.splitText rest).2) := by
        simp [Item.splitText, htext]
      have hlast : ((t :: (Item.splitText rest).1).getLast?.map Token.endsLine).getD endsLine =
          ((Item.splitText rest).1.getLast?.map Token.endsLine).getD t.endsLine := by
        rw [List.getLast?_cons]
        cases (Item.splitText rest).1.getLast? <;> rfl
      rw [if_pos htext, ih, hsplit, hlast, Draft.textOf_cons, Draft.coverTokens_cons,
        List.append_assoc]
    · have hsplit : Item.splitText (t :: rest) = ([], t :: rest) := by
        simp [Item.splitText, htext]
      rw [if_neg htext, hsplit]
      simp [Draft.textOf, Draft.coverTokens]

/-- Where a line ends, it is dropped in place exactly if it is blank, and no check fails. -/
theorem settle?_ofDraft (endsLine : Bool) : (ofDraft tokens d).settle? endsLine =
    some (ofDraft tokens
      (if endsLine then (if d.lineBlank then d.edit .dropLine else d).setLine true false
        else d)) := by
  rw [settle?, edit?_dropLine, lineBlank_ofDraft]
  split
  · split <;> rfl
  · rfl

/-- What follows a name and a target is taken into an item, and acts as the item does. -/
theorem tail?_ofDraft (kind : Text) (span : Span) :
    (ofDraft tokens d).tail? kind span =
      some (ofDraft (Item.splitTail tokens).2 (d.tail kind span (Item.splitTail tokens).1).1,
        (d.tail kind span (Item.splitTail tokens).1).2) := by
  cases tokens with
  | nil => rfl
  | cons t rest =>
    rw [tail?, tokens_ofDraft, Item.splitTail]
    dsimp only
    by_cases hopen : t.kind = .braceOpen
    · rw [if_pos hopen, if_pos hopen, body?_ofDraft _ _ _ _ (Nat.le_refl 1)]
      rfl
    · by_cases herror : t.kind = .error
      · rw [if_neg hopen, if_neg hopen, if_pos herror, if_pos herror, recover_eq]
        generalize Item.splitText rest = taken
        obtain ⟨recovered, after⟩ := taken
        have hends : (recovered.getLast?.map Token.endsLine).getD false =
            recovered.getLast?.any Token.endsLine := by
          cases recovered.getLast? <;> rfl
        simp only [hends, report_ofDraft, past_ofDraft, settle?_ofDraft, Option.bind_eq_bind,
          Option.bind_some, List.nil_append]
        rfl
      · rw [if_neg hopen, if_neg hopen, if_neg herror, if_neg herror]
        rfl

/-- A reference is taken with its name, its target and what follows them. -/
theorem reference?_ofDraft {t : Token} (ht : t.kind = .referenceStart) :
    (ofDraft tokens d).reference? t =
      some (ofDraft (Item.first t tokens).2 (d.apply (Item.first t tokens).1)) := by
  have hmarked (rest : List Token) : { ofDraft rest d with lineHasReference := true } =
      ofDraft rest { d with lineHasReference := true } := rfl
  rw [Item.first, ht, reference?]
  simp only [nextIf_ofDraft, hmarked, tail?_ofDraft, Option.bind_eq_bind, Option.bind_some]
  rfl

/-- The next step takes the tokens of an item and acts as the item does; it ends at the end of the
script. -/
theorem next?_ofDraft (t : Token) (rest : List Token) : (ofDraft (t :: rest) d).next? =
    if t.kind = .eof then some none
    else some (some (ofDraft (Item.first t rest).2 (d.apply (Item.first t rest).1))) := by
  rw [next?, tokens_ofDraft]
  dsimp only
  rw [past_ofDraft]
  cases hkind : t.kind with
  | sectionKeyword => simp [header_ofDraft rest d hkind]
  | statementKeyword => simp [statement_ofDraft rest d hkind]
  | text => simp [text?_ofDraft, Item.first, hkind, Draft.apply]
  | referenceStart => simp [reference?_ofDraft rest d hkind]
  | eof => rfl
  | identifier | target | braceOpen | braceClose | error =>
    have hstray := unexpected_ofDraft rest d t
    rw [if_neg (by simp [hkind])] at hstray
    simp [hstray, Item.first, hkind]

/-- The run over the tokens that are left applies their items one after another. -/
theorem run?_ofDraft (tokens : List Token) (d : Draft) : (ofDraft tokens d).run? =
    some ⟨(d.applyAll (Item.ofTokens tokens)).close.document,
      (d.applyAll (Item.ofTokens tokens)).close.diagnostics⟩ := by
  fun_induction Item.ofTokens tokens generalizing d with
  | case1 =>
    have hnone : (ofDraft [] d).next? = some none := rfl
    rw [run?, hnone]
    simp only [Option.bind_eq_bind, Option.bind_some, close_ofDraft]
    rfl
  | case2 t rest heof =>
    rw [run?, next?_ofDraft, if_pos heof]
    simp only [Option.bind_eq_bind, Option.bind_some, close_ofDraft]
    rfl
  | case3 t rest hmore ih =>
    rw [run?, next?_ofDraft, if_neg hmore]
    exact ih (d.apply (Item.first t rest).1)

end CheckedParser

end PromptScript
