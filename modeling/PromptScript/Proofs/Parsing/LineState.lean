import PromptScript.Proofs.Parsing.Grouping
import PromptScript.Proofs.Parsing.LineStart

/-!
# What a draft knows of its line

A draft remembers of its current line whether it held only white space and references, and whether
it held a reference. Before a fragment of text this says exactly whether a line begins there: the
line is blank and without a reference if and only if the fragment stands in the first column.
-/

namespace PromptScript

namespace Item

/-- A body in braces ends with a closing brace. -/
theorem kind_of_getLast?_body {depth : Nat} {body : List Token} (h : Token.Body depth body) :
    ∀ x ∈ body.getLast?, x.kind = .braceClose := by
  induction h with
  | close ht =>
    rintro x ⟨⟩
    exact ht
  | @leave _ t body _ hbody ih | @enter _ t body _ hbody ih | @text _ t body _ hbody ih =>
    cases hlast : body.getLast? with
    | none =>
      rw [List.getLast?_eq_none_iff.mp hlast] at hbody
      cases hbody
    | some y =>
      rw [List.getLast?_cons, hlast]
      rintro x ⟨⟩
      exact ih _ hlast

/-- A reference without recovered text has no text at its end. -/
theorem kind_of_getLast?_reference {start : Token} {name target : Option Token} {tail : Tail}
    (h : (reference start name target tail).IsWhole)
    (htail : ∀ mark recovered, tail ≠ .unterminated mark recovered) :
    ∀ x ∈ (reference start name target tail).tokens.getLast?, x.kind ≠ .text := by
  obtain ⟨hstart, hname, htarget, hwhole⟩ := h
  intro x hx
  cases tail with
  | none =>
    have hmem := List.mem_of_getLast? hx
    rw [tokens, Tail.tokens, List.append_nil] at hmem
    rcases List.mem_cons.mp hmem with rfl | hmem
    · rw [hstart]
      decide
    · rcases List.mem_append.mp hmem with hmem | hmem
      · rw [hname x (by simpa using hmem)]
        decide
      · rw [htarget x (by simpa using hmem)]
        decide
  | braced opening inner closing =>
    obtain ⟨-, hbody, hclosing⟩ := hwhole
    obtain ⟨brace, rfl⟩ := Option.isSome_iff_exists.mp hclosing
    have hlast : brace.kind = .braceClose := kind_of_getLast?_body hbody brace (by simp)
    have htokens : (reference start name target (.braced opening inner (some brace))).tokens =
        (start :: (name.toList ++ (target.toList ++ opening :: inner))) ++ [brace] := by
      simp [tokens, Tail.tokens]
    rw [htokens, List.getLast?_concat] at hx
    cases hx
    rw [hlast]
    decide
  | unterminated mark recovered => exact absurd rfl (htail mark recovered)

end Item

namespace Draft

/-- Whether what a draft knows of its line is right before the tokens that come next: if text comes
next, the line held nothing so far exactly if it begins there. -/
def IsAt (d : Draft) (tokens : List Token) : Prop :=
  ∀ t ∈ tokens.head?, t.kind = .text →
    (d.lineBlank = true ∧ d.lineHasReference = false ↔ t.place.column = 1)

variable (d : Draft)

/-- A statement leaves a new line. -/
theorem line_statement (keyword : Token) (rest : Option Token) :
    (d.statement keyword rest).lineBlank = true ∧
      (d.statement keyword rest).lineHasReference = false := by
  have hopen (e : Draft) (opening : Opening) (span : Span) (text : Text) :
      (e.openNew opening span text).lineBlank = e.lineBlank ∧
        (e.openNew opening span text).lineHasReference = e.lineHasReference := by
    unfold openNew
    split <;> exact ⟨rfl, rfl⟩
  unfold statement
  simp only
  cases statementWords.lookup (Text.words keyword.text) with
  | none => exact ⟨rfl, rfl⟩
  | some word =>
    cases word with
    | conditional =>
      simp only [conditional]
      split <;> exact hopen ..
    | forEach =>
      simp only [forEach]
      split <;> exact hopen ..
    | onError => exact hopen ..
    | otherwise =>
      simp only [otherwise]
      split <;> exact ⟨rfl, rfl⟩
    | finish =>
      simp only [finish]
      split <;> exact ⟨rfl, rfl⟩
    | callApi =>
      simp only [callApi]
      split <;> exact ⟨rfl, rfl⟩

/-- A statement leaves no section open. -/
theorem openSection_statement (keyword : Token) (rest : Option Token) :
    (d.statement keyword rest).openSection = none := by
  have hready : (d.finishSection.setLine true false).openSection = none := by
    simp only [finishSection, setLine]
    split
    · rfl
    · assumption
  have hopen (e : Draft) (opening : Opening) (span : Span) (text : Text) :
      (e.openNew opening span text).openSection = e.openSection := by
    unfold openNew
    split <;> rfl
  unfold statement
  simp only
  cases statementWords.lookup (Text.words keyword.text) with
  | none => exact hready
  | some word =>
    cases word with
    | conditional =>
      simp only [conditional]
      split <;> exact (hopen ..).trans hready
    | forEach =>
      simp only [forEach]
      split <;> exact (hopen ..).trans hready
    | onError => exact (hopen ..).trans hready
    | otherwise =>
      simp only [otherwise]
      split <;> exact hready
    | finish =>
      simp only [finish]
      split <;> exact hready
    | callApi =>
      simp only [callApi]
      split <;> exact hready

/-- Text that is collected does not touch what is known of the line. -/
theorem line_edit (change : TextBuffer → TextBuffer) :
    (d.edit change).lineBlank = d.lineBlank ∧
      (d.edit change).lineHasReference = d.lineHasReference := by
  unfold edit
  split <;> exact ⟨rfl, rfl⟩

/-- Text that ends a line leaves a new line. -/
theorem line_text {t : Token} (h : t.endsLine = true) :
    (d.text t).lineBlank = true ∧ (d.text t).lineHasReference = false := by
  have hfinish : d.finishSection.lineBlank = d.lineBlank ∧
      d.finishSection.lineHasReference = d.lineHasReference := by
    unfold finishSection
    split <;> exact ⟨rfl, rfl⟩
  unfold text
  split
  · rename_i hblank
    cases hreference : d.lineHasReference with
    | true => exact ⟨(d.line_edit _).1.trans hblank.1, rfl⟩
    | false =>
      simp only [Bool.false_eq_true, if_false]
      split
      · exact ⟨hblank.1, rfl⟩
      · exact ⟨hfinish.1.trans hblank.1, hfinish.2.trans hreference⟩
  · simp [setLine, h]

/-- A reference marks its line, unless text is recovered. -/
theorem lineHasReference_reference (start : Token) (name target : Option Token) {tail : Item.Tail}
    (htail : ∀ mark recovered, tail ≠ .unterminated mark recovered) :
    (d.reference start name target tail).lineHasReference = true := by
  cases tail with
  | none => rfl
  | braced opening inner closing =>
    simp only [reference, Draft.tail]
    cases deepBrace? 1 inner <;> rfl
  | unterminated mark recovered => exact absurd rfl (htail mark recovered)

/-- After an item, what a draft knows of its line is right. -/
theorem isAt_apply {item : Item} {rest : List Token} (hitem : item.IsWhole)
    (hstop : item.StopsAt rest) (hmeets : (item.tokens ++ rest).IsChain Token.Meets)
    (hends : ∀ x ∈ item.tokens, x.endsLine = true → x.kind = .text) : (d.apply item).IsAt rest := by
  intro t ht hkind
  have hmeet : ∀ x ∈ item.tokens.getLast?, (t.place.column = 1 ↔ x.endsLine = true) ∧
      (x.kind = .text → x.endsLine = true) := fun x hx =>
    (List.isChain_append.mp hmeets).2.2 x hx t ht hkind
  have hlast : ∀ x ∈ item.tokens.getLast?, x.endsLine = true → x.kind = .text := fun x hx =>
    hends x (List.mem_of_getLast? hx)
  cases item with
  | header h kind =>
    have hline : ¬h.endsLine = true := fun hline => by
      have hkind := hlast h rfl hline
      rw [hitem.1] at hkind
      cases hkind
    have hblank : (d.apply (.header h kind)).lineBlank = false := rfl
    rw [(hmeet h rfl).1, hblank]
    simp [hline]
  | statement keyword line =>
    cases line with
    | none =>
      have heof : rest.head?.map (·.kind) = some .eof := hstop
      rw [ht, Option.map_some, hkind] at heof
      cases heof
    | some line =>
      obtain ⟨hcolumn, htext⟩ := hmeet line rfl
      have hflags := d.line_statement keyword (some line)
      exact ⟨fun _ => hcolumn.mpr (htext (hitem.2.2 line rfl)), fun _ => hflags⟩
  | text x =>
    obtain ⟨hcolumn, htext⟩ := hmeet x rfl
    have hline := htext hitem
    exact ⟨fun _ => hcolumn.mpr hline, fun _ => d.line_text hline⟩
  | reference start name target tail =>
    have htail : ∀ mark recovered, tail ≠ .unterminated mark recovered := by
      rintro mark recovered rfl
      have hnext : rest.head?.map (·.kind) ≠ some .text := hstop
      rw [ht, Option.map_some, hkind] at hnext
      exact hnext rfl
    have hmarked := d.lineHasReference_reference start name target htail
    obtain ⟨x, hx⟩ : ∃ x, (Item.reference start name target tail).tokens.getLast? = some x := by
      rw [Item.tokens, List.getLast?_cons]
      exact ⟨_, rfl⟩
    have hline : ¬x.endsLine = true := fun hline =>
      Item.kind_of_getLast?_reference hitem htail x hx (hlast x hx hline)
    rw [(hmeet x hx).1, apply, hmarked]
    simp [hline]
  | stray => exact absurd hitem id

/-- Whether items come next in a script of which a draft has read all that is before them. -/
def IsReading (items : List Item) : Prop :=
  ∃ tokens, Item.Groups items tokens ∧ tokens.IsChain Token.Meets ∧
    (∀ x ∈ tokens, x.endsLine = true → x.kind = .text) ∧ d.IsAt tokens

variable {d}

/-- A draft reads one item after another. -/
theorem IsReading.apply {item : Item} {items : List Item} (h : d.IsReading (item :: items)) :
    item.IsWhole ∧ (d.apply item).IsReading items := by
  obtain ⟨tokens, hgroups, hmeets, hends, -⟩ := h
  cases hgroups with
  | @cons _ _ rest hitem hstop hgroups =>
    refine ⟨hitem, rest, hgroups, (List.isChain_append.mp hmeets).2.1, ?_, ?_⟩
    · exact fun x hx => hends x (List.mem_append_right _ hx)
    · exact isAt_apply d hitem hstop hmeets fun x hx => hends x (List.mem_append_left _ hx)

/-- Before a fragment of text a draft knows whether a line begins there. -/
theorem IsReading.column_eq_one_iff {t : Token} {items : List Item}
    (h : d.IsReading (.text t :: items)) :
    d.lineBlank = true ∧ d.lineHasReference = false ↔ t.place.column = 1 := by
  obtain ⟨tokens, hgroups, -, -, hline⟩ := h
  cases hgroups with
  | cons hitem => exact hline t rfl hitem

/-- What is known of the line stays right past items in a row. -/
theorem IsReading.applyAll {items more : List Item} (h : d.IsReading (items ++ more)) :
    (d.applyAll items).IsReading more := by
  induction items generalizing d with
  | nil => exact h
  | cons item items ih => exact ih h.apply.2

/-- An empty draft is reading the items of a script. -/
theorem isReading_ofText (source : Text) :
    empty.IsReading (Item.ofTokens (Token.ofText source)) := by
  refine ⟨_, Item.groups_ofText source, Token.meets_ofText source, Token.kind_of_endsLine source,
    fun t ht hkind => ⟨fun _ => ?_, fun _ => ⟨rfl, rfl⟩⟩⟩
  obtain ⟨after, hafter⟩ := List.head?_eq_some_iff.mp ht
  have hsplit : Token.ofText source = [] ++ t :: after := hafter
  exact (Token.column_eq_one_iff source hsplit hkind).mpr (by simp)

end Draft

end PromptScript
