import PromptScript.Document.Parser
import PromptScript.Proofs.Lexing.Grammar

/-!
# The parser takes what the lexer gives

On tokens in the grammar the parser finds only items that have a place in a script, so it never
reports a token that it did not expect or a statement that it does not know.
-/

namespace PromptScript

namespace Item

/-- Whether an item has a place in a script: it is no stray token, and a statement is known. -/
def IsKnown : Item → Prop
  | .statement keyword _ => (Draft.statementWords.lookup (Text.words keyword.text)).isSome = true
  | .stray _ _ => False
  | _ => True

open Token (Grammar)

variable {tokens rest : List Token}

/-- The kinds of tokens that an item or the end of a script begins with. -/
def openingKinds : List Token.Kind :=
  [.eof, .sectionKeyword, .statementKeyword, .text, .referenceStart]

/-- Tokens in the grammar begin with one that begins an item or is the end. -/
theorem exists_head_of_grammar (h : Grammar tokens) :
    ∃ t rest, tokens = t :: rest ∧ t.kind ∈ openingKinds := by
  cases h with
  | eof ht => exact ⟨_, _, rfl, by rw [ht]; decide⟩
  | header ht => exact ⟨_, _, rfl, by rw [ht]; decide⟩
  | statement ht => exact ⟨_, _, rfl, by rw [ht]; decide⟩
  | text ht => exact ⟨_, _, rfl, by rw [ht]; decide⟩
  | reference ht => exact ⟨_, _, rfl, by rw [ht]; decide⟩

/-- An optional token of a kind is taken, if no other token of the kind comes first. -/
theorem takeKind_toList {kind : Token.Kind} {t : Option Token} (ht : ∀ x ∈ t, x.kind = kind)
    (hrest : t = none → rest.head?.map (·.kind) ≠ some kind) : takeKind kind (t.toList ++ rest) = (t, rest) := by
  cases t with
  | some x => simp [takeKind, ht x rfl]
  | none =>
    cases rest with
    | nil => rfl
    | cons y rest =>
      have hy : y.kind ≠ kind := by simpa using hrest rfl
      simp [takeKind, hy]

/-- The tokens of a body are taken through the brace that closes it. -/
theorem splitBraced_append {depth : Nat} {body : List Token} (h : Token.Body depth body)
    (rest : List Token) :
    ∃ inner closing, splitBraced depth (body ++ rest) = (inner, some closing, rest) ∧
      body = inner ++ [closing] := by
  induction h with
  | close ht =>
    refine ⟨[], _, ?_, rfl⟩
    simp [splitBraced, ht]
  | leave ht _ ih =>
    obtain ⟨inner, closing, hsplit, rfl⟩ := ih
    refine ⟨_ :: inner, closing, ?_, rfl⟩
    rw [List.cons_append, splitBraced, if_neg (by simp [ht]), if_neg (by simp [ht]), if_pos ht]
    have hdepth : ∀ d : Nat, d + 2 - 1 = d + 1 := fun d => rfl
    simp only [hdepth, hsplit]
  | enter ht _ ih =>
    obtain ⟨inner, closing, hsplit, rfl⟩ := ih
    refine ⟨_ :: inner, closing, ?_, rfl⟩
    rw [List.cons_append, splitBraced, if_neg (by simp [ht]), if_pos ht]
    simp only [hsplit]
  | text ht _ ih =>
    obtain ⟨inner, closing, hsplit, rfl⟩ := ih
    refine ⟨_ :: inner, closing, ?_, rfl⟩
    rw [List.cons_append, splitBraced, if_neg (by simp [ht]), if_neg (by simp [ht]),
      if_neg (by simp [ht])]
    simp only [hsplit]

/-- Text tokens in front of tokens in the grammar can be skipped. -/
theorem grammar_dropWhile (h : Grammar tokens) :
    Grammar (tokens.dropWhile (·.kind == .text)) := by
  induction h with
  | text ht _ ih =>
    rw [List.dropWhile_cons_of_pos (by simp [ht])]
    exact ih
  | eof ht =>
    rw [List.dropWhile_cons_of_neg (by simp [ht])]
    exact .eof ht
  | header ht hknown h =>
    rw [List.dropWhile_cons_of_neg (by simp [ht])]
    exact .header ht hknown h
  | statement ht hknown hline h =>
    rw [List.dropWhile_cons_of_neg (by simp [ht])]
    exact .statement ht hknown hline h
  | reference ht hname htarget htail h =>
    rw [List.dropWhile_cons_of_neg (by simp [ht])]
    exact .reference ht hname htarget htail h

/-- The kinds of tokens that come after the name and the target of a reference. -/
def attachedKinds : List Token.Kind :=
  .error :: .braceOpen :: openingKinds

/-- What follows a target begins with an error or a brace, or else an item begins after it. -/
theorem exists_head_of_tail {tail : List Token} (htail : Token.Tail tail) (h : Grammar rest) :
    ∃ x more, tail ++ rest = x :: more ∧ x.kind ∈ attachedKinds := by
  cases htail with
  | none =>
    obtain ⟨x, more, rfl, hx⟩ := exists_head_of_grammar h
    exact ⟨x, more, rfl, List.mem_cons_of_mem _ (List.mem_cons_of_mem _ hx)⟩
  | error ht => exact ⟨_, _, rfl, by rw [ht]; decide⟩
  | braced ht => exact ⟨_, _, rfl, by rw [ht]; decide⟩

/-- What follows a target is taken, and tokens in the grammar are left. -/
theorem grammar_splitTail {tail : List Token} (htail : Token.Tail tail) (h : Grammar rest) :
    Grammar (splitTail (tail ++ rest)).2 := by
  cases htail with
  | none =>
    obtain ⟨t, more, rfl, hkind⟩ := exists_head_of_grammar h
    have hbrace : t.kind ≠ .braceOpen := fun heq => absurd (heq ▸ hkind) (by decide)
    have herror : t.kind ≠ .error := fun heq => absurd (heq ▸ hkind) (by decide)
    simpa [splitTail, hbrace, herror] using h
  | error ht =>
    simp only [List.cons_append, List.nil_append, splitTail, ht, splitText]
    exact grammar_dropWhile h
  | @braced t inner ht hbody =>
    obtain ⟨ts, closing, hsplit, -⟩ := splitBraced_append hbody rest
    simp only [List.cons_append, splitTail, ht, hsplit]
    exact h

/-- The name and the target of a reference are taken, and what follows is left. -/
theorem takeKind_reference {name target : Option Token}
    (hname : ∀ n ∈ name, n.kind = .identifier) (htarget : ∀ q ∈ target, q.kind = .target)
    (hrest : ∀ x ∈ rest.head?, x.kind ∈ attachedKinds) :
    takeKind .identifier (name.toList ++ (target.toList ++ rest)) = (name, target.toList ++ rest) ∧
      takeKind .target (target.toList ++ rest) = (target, rest) := by
  have hother {kind : Token.Kind} (hkind : kind ∉ attachedKinds) :
      rest.head?.map (·.kind) ≠ some kind := by
    intro hhead
    obtain ⟨x, hx, rfl⟩ := Option.map_eq_some_iff.mp hhead
    exact hkind (hrest x hx)
  refine ⟨takeKind_toList hname fun _ => ?_, takeKind_toList htarget fun _ => hother (by decide)⟩
  cases target with
  | some q => simp [htarget q rfl]
  | none => exact hother (by decide)

/-- A reference is taken with its name, its target and what follows. -/
theorem first_reference {t : Token} {name target : Option Token} (ht : t.kind = .referenceStart)
    (hname : ∀ n ∈ name, n.kind = .identifier) (htarget : ∀ q ∈ target, q.kind = .target)
    (hrest : ∀ x ∈ rest.head?, x.kind ∈ attachedKinds) :
    first t (name.toList ++ (target.toList ++ rest)) =
      (.reference t name target (splitTail rest).1, (splitTail rest).2) := by
  obtain ⟨htakeName, htakeTarget⟩ := takeKind_reference hname htarget hrest
  simp only [first, ht, htakeName, htakeTarget]

/-- The first of tokens in the grammar begins an item that has a place, and tokens in the grammar
are left. -/
theorem first_of_grammar {t : Token} (h : Grammar (t :: rest)) (ht : t.kind ≠ .eof) :
    (first t rest).1.IsKnown ∧ Grammar (first t rest).2 := by
  cases h with
  | eof heof => exact absurd heof ht
  | header hkind hknown h =>
    obtain ⟨kind, hheader⟩ := Option.isSome_iff_exists.mp hknown
    simp only [first, hkind, hheader]
    exact ⟨trivial, h⟩
  | @statement _ line rest hkind hknown hline h =>
    have htake : takeKind .text (line.toList ++ rest) = (line, rest) := by
      refine takeKind_toList (fun x hx => ?_) (fun hnone => ?_)
      · subst hx
        exact hline.1
      · subst hnone
        rw [show rest.head?.map (·.kind) = some .eof from hline]
        simp
    simp only [first, hkind, htake]
    exact ⟨hknown, h⟩
  | text hkind h =>
    simp only [first, hkind]
    exact ⟨trivial, h⟩
  | @reference _ name target tail rest hkind hname htarget htail h =>
    have hnext : ∀ x ∈ (tail ++ rest).head?, x.kind ∈ attachedKinds := by
      obtain ⟨x, more, heq, hx⟩ := exists_head_of_tail htail h
      rw [heq]
      rintro y ⟨⟩
      exact hx
    rw [first_reference hkind hname htarget hnext]
    exact ⟨trivial, grammar_splitTail htail h⟩

/-- All items of tokens in the grammar have a place in a script. -/
theorem isKnown_of_grammar (h : Grammar tokens) : ∀ item ∈ ofTokens tokens, item.IsKnown := by
  fun_induction ofTokens tokens with
  | case1 => simp
  | case2 => simp
  | case3 t rest ht ih =>
    obtain ⟨hfirst, hrest⟩ := first_of_grammar h ht
    intro item hitem
    rcases List.mem_cons.mp hitem with rfl | hitem
    · exact hfirst
    · exact ih hrest item hitem

end Item

/-- Whether a problem is one that the tokens of a script can have: neither a token that is not
expected nor a statement that is not known. -/
def Document.Problem.IsPossible : Document.Problem → Prop
  | .unknownStatement _ => False
  | .unexpectedToken _ _ => False
  | _ => True

namespace Draft

/-- Whether all reports of a draft are of problems that the tokens of a script can have. -/
def IsSane (d : Draft) : Prop :=
  ∀ x ∈ d.diagnostics, ∃ (problem : Document.Problem) (span : Span),
    problem.IsPossible ∧ x = problem.diagnostic span

variable {d : Draft}

/-- Text that is collected is not reported. -/
theorem diagnostics_edit (change : TextBuffer → TextBuffer) :
    (d.edit change).diagnostics = d.diagnostics := by
  unfold edit
  split <;> rfl

/-- The end of a section is not reported. -/
theorem diagnostics_finishSection : d.finishSection.diagnostics = d.diagnostics := by
  unfold finishSection
  split <;> rfl

/-- Text is never a problem. -/
theorem diagnostics_text (t : Token) : (d.text t).diagnostics = d.diagnostics := by
  unfold text
  split
  · split
    · exact diagnostics_edit _
    · split
      · rfl
      · exact diagnostics_finishSection
  · simp only [setLine]
    rw [diagnostics_edit]
    split <;> rfl

namespace IsSane

/-- Drafts with the same reports are equally sane. -/
theorem of_eq {e : Draft} (h : d.IsSane) (heq : e.diagnostics = d.diagnostics) : e.IsSane := by
  intro x hx
  rw [heq] at hx
  exact h x hx

/-- A report of a possible problem keeps a draft sane. -/
theorem report (h : d.IsSane) {problem : Document.Problem} (hpossible : problem.IsPossible)
    (span : Span) : (d.report problem span).IsSane := by
  intro x hx
  rcases List.mem_append.mp hx with hx | hx
  · exact h x hx
  · exact ⟨problem, span, hpossible, List.mem_singleton.mp hx⟩

/-- An unfinished block is a possible problem. -/
theorem closeUnfinished (h : d.IsSane) : d.closeUnfinished.IsSane := by
  unfold Draft.closeUnfinished
  split
  · rename_i b _
    exact (h.report (by trivial) b.span).of_eq rfl
  · exact h

/-- A nested block is a possible problem. -/
theorem openNew (h : d.IsSane) (opening : Opening) (span : Span) (rest : Text) :
    (d.openNew opening span rest).IsSane := by
  unfold Draft.openNew
  split
  · exact h.report (by trivial) span
  · exact h.of_eq rfl

/-- What can be wrong with IF is possible. -/
theorem conditional (h : d.IsSane) (span : Span) (arguments : Text) :
    (d.conditional span arguments).IsSane := by
  unfold Draft.conditional
  split
  · exact h.openNew _ _ _
  · exact (h.report (by trivial) span).openNew _ _ _

/-- What can be wrong with FOR EACH is possible. -/
theorem forEach (h : d.IsSane) (span : Span) (arguments : Text) :
    (d.forEach span arguments).IsSane := by
  unfold Draft.forEach
  split
  · exact h.openNew _ _ _
  · exact (h.report (by trivial) span).openNew _ _ _

/-- What can be wrong with ELSE is possible. -/
theorem otherwise (h : d.IsSane) (span : Span) (arguments : Text) :
    (d.otherwise span arguments).IsSane := by
  unfold Draft.otherwise
  split
  · exact h.of_eq rfl
  · exact h.report (by trivial) span

/-- What can be wrong with END is possible. -/
theorem finish (h : d.IsSane) (keyword span : Span) : (d.finish keyword span).IsSane := by
  unfold Draft.finish
  split
  · exact h.of_eq rfl
  · exact h.report (by trivial) span

/-- What can be wrong with a call is possible. -/
theorem callApi (h : d.IsSane) (span : Span) (arguments : Text) :
    (d.callApi span arguments).IsSane := by
  unfold Draft.callApi
  split
  · exact h.of_eq rfl
  · exact h.report (by trivial) span

/-- A known statement leads to no report that scripts cannot have. -/
theorem statement (h : d.IsSane) {keyword : Token} {rest : Option Token}
    (hknown : (Draft.statementWords.lookup (Text.words keyword.text)).isSome = true) :
    (d.statement keyword rest).IsSane := by
  have hready : (d.finishSection.setLine true false).IsSane := h.of_eq diagnostics_finishSection
  obtain ⟨word, hword⟩ := Option.isSome_iff_exists.mp hknown
  unfold Draft.statement
  simp only [hword]
  cases word with
  | conditional => exact hready.conditional _ _
  | forEach => exact hready.forEach _ _
  | onError => exact hready.openNew _ _ _
  | otherwise => exact hready.otherwise _ _
  | finish => exact hready.finish _ _
  | callApi => exact hready.callApi _ _

/-- What can be wrong with the body of a reference is possible. -/
theorem tail (h : d.IsSane) (kind : Text) (span : Span) (tail : Item.Tail) :
    (d.tail kind span tail).1.IsSane := by
  unfold Draft.tail
  split
  · exact h
  · simp only
    split
    · exact h.report (by trivial) _
    · exact h
  · rename_i mark recovered
    have hreport (problem : Document.Problem) (hpossible : problem.IsPossible) :
        (d.report problem mark.span).IsSane := h.report hpossible _
    have hproblem : (if mark.text = ['"'] then Document.Problem.unterminatedTarget kind
        else .unterminatedBody kind).IsPossible := by
      split <;> trivial
    simp only
    split
    · split
      · exact (hreport _ hproblem).of_eq (diagnostics_edit _)
      · exact hreport _ hproblem
    · exact hreport _ hproblem

/-- No item that has a place in a script leads to a report that scripts cannot have. -/
theorem apply (h : d.IsSane) {item : Item} (hknown : item.IsKnown) : (d.apply item).IsSane := by
  cases item with
  | header t kind =>
    have hfinished : d.finishSection.IsSane := h.of_eq diagnostics_finishSection
    exact hfinished.closeUnfinished.of_eq rfl
  | statement keyword rest => exact h.statement hknown
  | text t => exact h.of_eq (diagnostics_text t)
  | reference start name target rest =>
    have hmarked : { d with lineHasReference := true }.IsSane := h.of_eq rfl
    exact (hmarked.tail _ _ rest).of_eq rfl
  | stray => exact absurd hknown id

/-- Items that have a place in a script keep a draft sane. -/
theorem applyAll (h : d.IsSane) {items : List Item} (hknown : ∀ item ∈ items, item.IsKnown) :
    (d.applyAll items).IsSane := by
  induction items generalizing d with
  | nil => exact h
  | cons item items ih =>
    exact ih (h.apply (hknown item List.mem_cons_self)) fun i hi =>
      hknown i (List.mem_cons_of_mem _ hi)

end IsSane

end Draft

/-- A problem that the tokens of a script can have is not reported as a token that is not expected
or a statement that is not known. -/
theorem Document.Problem.message_of_isPossible {problem : Document.Problem}
    (h : problem.IsPossible) : ¬"Unexpected ".toList <+: problem.message ∧
      ¬"Unknown statement".toList <+: problem.message := by
  have hthird {lead rest : Text} {c : Char} (hc : lead[2]? = some c) :
      (lead ++ rest)[2]? = some c := by
    obtain ⟨hlt, -⟩ := List.getElem?_eq_some_iff.mp hc
    rw [List.getElem?_append_left hlt, hc]
  have hmessage : problem.message[2]? ∈ ("tfoSDpL".toList.map some) := by
    cases problem with
    | unknownStatement => exact absurd h id
    | unexpectedToken => exact absurd h id
    | unterminatedBody kind =>
      have hc : (unterminatedBody kind).message[2]? = some 't' := hthird (hthird (by decide))
      rw [hc]
      decide
    | unterminatedTarget kind =>
      have hc : (unterminatedTarget kind).message[2]? = some 't' := hthird (hthird (by decide))
      rw [hc]
      decide
    | deepBody kind =>
      have hc : (deepBody kind).message[2]? = some 'f' := hthird (hthird (by decide))
      rw [hc]
      decide
    | malformedCall problem =>
      cases problem with
      | noKind => decide
      | badTarget target =>
        have hc : (malformedCall (.badTarget target)).message[2]? = some 'L' :=
          hthird (hthird (by decide))
        rw [hc]
        decide
      | noPayload rest =>
        have hc : (malformedCall (.noPayload rest)).message[2]? = some 'p' :=
          hthird (hthird (by decide))
        rw [hc]
        decide
    | _ => decide
  have hfront {lead : Text} (hlead : lead <+: problem.message) (hsome : lead[2]?.isSome = true) :
      lead[2]? ∈ ("tfoSDpL".toList.map some) := by
    obtain ⟨c, hc⟩ := Option.isSome_iff_exists.mp hsome
    obtain ⟨t, ht⟩ := hlead
    rw [← ht, hthird hc] at hmessage
    rw [hc]
    exact hmessage
  exact ⟨fun hlead => absurd (hfront hlead (by decide)) (by decide),
    fun hlead => absurd (hfront hlead (by decide)) (by decide)⟩

/-- The problems in the form of a script are ones that the tokens of a script can have. -/
theorem Parsed.exists_problem_of_mem {source : Text} {x : Diagnostic}
    (h : x ∈ (Parsed.ofText source).diagnostics) :
    ∃ (problem : Document.Problem) (span : Span),
      problem.IsPossible ∧ x = problem.diagnostic span := by
  have hempty : Draft.empty.IsSane := fun x hx => absurd hx List.not_mem_nil
  have hread : (Draft.empty.applyAll (Item.ofTokens (Token.ofText source))).IsSane :=
    hempty.applyAll (Item.isKnown_of_grammar (Token.grammar_ofText source))
  exact (hread.of_eq Draft.diagnostics_finishSection).closeUnfinished x h

/-- The tokens of a script are in the grammar, and the parser has a place for all of them: no item
is stray, and no report is of a token that it did not expect or of a statement that it does not
know. -/
theorem parser_accepts_tokens (source : Text) :
    Token.Grammar (Token.ofText source) ∧
      (∀ t skipped, Item.stray t skipped ∉ Item.ofTokens (Token.ofText source)) ∧
      ∀ x ∈ (Parsed.ofText source).diagnostics,
        ¬"Unexpected ".toList <+: x.message ∧ ¬"Unknown statement".toList <+: x.message := by
  have hgrammar := Token.grammar_ofText source
  have hknown := Item.isKnown_of_grammar hgrammar
  refine ⟨hgrammar, fun t skipped hmem => hknown _ hmem, ?_⟩
  have hempty : Draft.empty.IsSane := fun x hx => absurd hx List.not_mem_nil
  have hread := hempty.applyAll hknown
  have hfinished : (Draft.empty.applyAll (Item.ofTokens (Token.ofText source))).finishSection.IsSane :=
    hread.of_eq Draft.diagnostics_finishSection
  intro x hx
  obtain ⟨problem, span, hpossible, rfl⟩ := hfinished.closeUnfinished x hx
  exact Document.Problem.message_of_isPossible hpossible

end PromptScript
