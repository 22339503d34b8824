import PromptScript.Proofs.Parsing.Steps

/-!
# Items hold the tokens of a script

Every token of a script but the one for the end belongs to one item, and the items in a row hold
the tokens in their order. A list of items is the grouping of its tokens as soon as each item is
whole and what comes after it does not belong to it.
-/

namespace PromptScript

open Token (Grammar)

namespace Item

/-- The tokens of what follows the name and the target of a reference. -/
def Tail.tokens : Tail → List Token
  | .none => []
  | .braced opening inner closing => opening :: (inner ++ closing.toList)
  | .unterminated mark recovered => mark :: recovered

/-- The tokens of an item. -/
def tokens : Item → List Token
  | .header t _ => [t]
  | .statement keyword rest => keyword :: rest.toList
  | .text t => [t]
  | .reference start name target tail =>
    start :: (name.toList ++ (target.toList ++ tail.tokens))
  | .stray t skipped => t :: skipped

/-- Whether what follows a name and a target is all there: a body has the brace that closes it, and
what is recovered is text. -/
def Tail.IsWhole : Tail → Prop
  | .none => True
  | .braced opening inner closing =>
    opening.kind = .braceOpen ∧ Token.Body 1 (inner ++ closing.toList) ∧ closing.isSome = true
  | .unterminated mark recovered => mark.kind = .error ∧ ∀ t ∈ recovered, t.kind = .text

/-- Whether the tokens of an item are those that a script has there. -/
def IsWhole : Item → Prop
  | .header t kind => t.kind = .sectionKeyword ∧ SectionKind.ofHeader? t.text = some kind
  | .statement keyword rest =>
    keyword.kind = .statementKeyword ∧
      (Draft.statementWords.lookup (Text.words keyword.text)).isSome = true ∧
      ∀ t ∈ rest, t.kind = .text
  | .text t => t.kind = .text
  | .reference start name target tail =>
    start.kind = .referenceStart ∧ (∀ t ∈ name, t.kind = .identifier) ∧
      (∀ t ∈ target, t.kind = .target) ∧ tail.IsWhole
  | .stray _ _ => False

/-- Whether tokens that come after an item do not belong to it: a statement has all of its line,
and what is recovered is all the text. -/
def StopsAt : Item → List Token → Prop
  | .statement _ rest, after => Token.IsRestOfLine rest after
  | .reference _ _ _ (.unterminated _ _), after => after.head?.map (·.kind) ≠ some .text
  | _, _ => True

/-- Items in a row and the tokens they group, with one for the end. -/
inductive Groups : List Item → List Token → Prop
  | eof {last : Token} (hlast : last.kind = .eof) : Groups [] [last]
  | cons {item : Item} {items : List Item} {rest : List Token} (hitem : item.IsWhole)
      (hstop : item.StopsAt rest) (h : Groups items rest) :
      Groups (item :: items) (item.tokens ++ rest)

variable {item : Item} {items : List Item} {tokens rest : List Token}

/-- A whole item begins with a token that can begin one. -/
theorem IsWhole.exists_head (h : item.IsWhole) :
    ∃ t more, item.tokens = t :: more ∧ t.kind ∈ openingKinds ∧ t.kind ≠ .eof := by
  cases item with
  | header t kind => exact ⟨t, _, rfl, by rw [h.1]; decide, by rw [h.1]; decide⟩
  | statement t line => exact ⟨t, _, rfl, by rw [h.1]; decide, by rw [h.1]; decide⟩
  | text t =>
    have ht : t.kind = .text := h
    exact ⟨t, _, rfl, by rw [ht]; decide, by rw [ht]; decide⟩
  | reference t name target tail => exact ⟨t, _, rfl, by rw [h.1]; decide, by rw [h.1]; decide⟩
  | stray t skipped => exact absurd h id

/-- Grouped tokens begin with one that begins an item or is the end. -/
theorem Groups.exists_head (h : Groups items tokens) :
    ∃ t more, tokens = t :: more ∧ t.kind ∈ openingKinds := by
  cases h with
  | eof hlast => exact ⟨_, [], rfl, by rw [hlast]; decide⟩
  | cons hitem _ _ =>
    obtain ⟨t, more, htokens, hkind, -⟩ := hitem.exists_head
    exact ⟨t, _, by rw [htokens, List.cons_append], hkind⟩

/-- The kinds of tokens that stand only at the front of an item or at the end of a script. -/
def leadKinds : List Token.Kind :=
  [.eof, .sectionKeyword, .statementKeyword, .referenceStart]

/-- The tokens of a body are braces and text. -/
theorem kind_of_body {depth : Nat} {body : List Token} (h : Token.Body depth body) :
    ∀ t ∈ body, t.kind ∈ [Token.Kind.braceOpen, .braceClose, .text] := by
  induction h with
  | close ht => simp [ht]
  | leave ht _ ih => exact List.forall_mem_cons.mpr ⟨by simp [ht], ih⟩
  | enter ht _ ih => exact List.forall_mem_cons.mpr ⟨by simp [ht], ih⟩
  | text ht _ ih => exact List.forall_mem_cons.mpr ⟨by simp [ht], ih⟩

/-- Text and braces stand inside items. -/
theorem not_mem_leadKinds {kind : Token.Kind}
    (h : kind ∈ [Token.Kind.braceOpen, .braceClose, .text]) : kind ∉ leadKinds := by
  revert h
  cases kind <;> decide

/-- No token past a target begins a reference or ends the script. -/
theorem kind_of_tail {ts : List Token} (h : Token.Tail ts) : ∀ t ∈ ts, t.kind ∉ leadKinds := by
  cases h with
  | none => simp
  | error ht =>
    refine List.forall_mem_cons.mpr ⟨?_, by simp⟩
    rw [ht]
    decide
  | braced ht hbody =>
    refine List.forall_mem_cons.mpr ⟨?_, fun t hmem => not_mem_leadKinds (kind_of_body hbody t hmem)⟩
    rw [ht]
    decide

/-- No token of a whole tail begins a reference or ends the script. -/
theorem Tail.IsWhole.kind_not_mem {tail : Tail} (h : tail.IsWhole) :
    ∀ t ∈ tail.tokens, t.kind ∉ leadKinds := by
  intro t ht
  cases tail with
  | none => cases ht
  | braced opening inner closing =>
    rcases List.mem_cons.mp ht with rfl | ht
    · rw [h.1]
      decide
    · exact not_mem_leadKinds (kind_of_body h.2.1 t ht)
  | unterminated mark recovered =>
    rcases List.mem_cons.mp ht with rfl | ht
    · rw [h.1]
      decide
    · rw [h.2 t ht]
      decide

/-- Past its first token, an item has no token that can only stand first. -/
theorem IsWhole.kind_not_mem (h : item.IsWhole) : ∀ t ∈ item.tokens.tail, t.kind ∉ leadKinds := by
  intro t ht
  cases item with
  | header => cases ht
  | statement keyword rest =>
    rw [h.2.2 t (by simpa [tokens] using ht)]
    decide
  | text => cases ht
  | reference start name target tail =>
    obtain ⟨-, hname, htarget, htail⟩ := h
    rcases List.mem_append.mp ht with ht | ht
    · rw [hname t (by simpa using ht)]
      decide
    · rcases List.mem_append.mp ht with ht | ht
      · rw [htarget t (by simpa using ht)]
        decide
      · exact htail.kind_not_mem t ht
  | stray => exact absurd h id

/-- The tokens of a kind that can only stand first are the first tokens of items. -/
theorem IsWhole.filter_tokens {p : Token → Bool} (h : item.IsWhole)
    (hp : ∀ t, p t = true → t.kind ∈ leadKinds) :
    item.tokens.filter p = item.tokens.head?.toList.filter p := by
  obtain ⟨t, more, htokens, -, -⟩ := h.exists_head
  have hmore : more.filter p = [] := by
    refine List.filter_eq_nil_iff.mpr fun x hx hkind => ?_
    exact h.kind_not_mem x (by rw [htokens]; exact hx) (hp x hkind)
  rw [htokens, List.head?_cons, List.filter_cons, hmore]
  simp [List.filter_cons]

/-- The tokens of a kind that can only stand first, in a script, are those of its items. -/
theorem Groups.filter_tokens {p : Token → Bool} (h : Groups items tokens)
    (hp : ∀ t, p t = true → t.kind ≠ .eof) :
    tokens.filter p = items.flatMap fun item => item.tokens.filter p := by
  induction h with
  | @eof last hlast =>
    have hnot : p last = false := Bool.eq_false_iff.mpr fun hpl => hp last hpl hlast
    simp [hnot]
  | cons _ _ _ ih => rw [List.filter_append, ih, List.flatMap_cons]

/-- Text is taken up to a token that is not text. -/
theorem splitText_append {ts : List Token} (hts : ∀ t ∈ ts, t.kind = .text)
    (hrest : rest.head?.map (·.kind) ≠ some .text) : splitText (ts ++ rest) = (ts, rest) := by
  have hall : ∀ t ∈ ts, t.isText = true := by simpa [Token.isText] using hts
  have hhead : rest.head?.any Token.isText = false := by
    cases rest with
    | nil => rfl
    | cons x rest => simpa [Token.isText] using hrest
  exact Prod.ext (recovered_append hall hhead) (afterBody_append hall hhead)

/-- What follows a name and a target is taken where it stops. -/
theorem splitTail_tokens {tail : Tail} (h : tail.IsWhole)
    (hrest : ∀ x ∈ rest.head?, x.kind ∈ openingKinds)
    (hstop : ∀ mark recovered, tail = .unterminated mark recovered →
      rest.head?.map (·.kind) ≠ some .text) :
    splitTail (tail.tokens ++ rest) = (tail, rest) := by
  cases tail with
  | none =>
    cases rest with
    | nil => rfl
    | cons x rest =>
      have hx := hrest x rfl
      have hbrace : x.kind ≠ .braceOpen := fun heq => absurd (heq ▸ hx) (by decide)
      have herror : x.kind ≠ .error := fun heq => absurd (heq ▸ hx) (by decide)
      simp [Tail.tokens, splitTail, hbrace, herror]
  | braced opening inner closing =>
    obtain ⟨hopening, hbody, hclosing⟩ := h
    obtain ⟨brace, rfl⟩ := Option.isSome_iff_exists.mp hclosing
    obtain ⟨ts, last, hsplit, heq⟩ := splitBraced_append hbody rest
    obtain ⟨rfl, hlast⟩ := List.append_inj' heq rfl
    cases hlast
    simp [Tail.tokens, splitTail, hopening] at hsplit ⊢
    simp [hsplit]
  | unterminated mark recovered =>
    obtain ⟨hmark, htext⟩ := h
    have hnext := hstop mark recovered rfl
    have hsplit := splitText_append htext hnext
    simp [Tail.tokens, splitTail, hmark, hsplit]

/-- What follows a name and a target begins with an error, a brace or what begins an item. -/
theorem Tail.IsWhole.head?_mem {tail : Tail} (h : tail.IsWhole)
    (hrest : ∀ x ∈ rest.head?, x.kind ∈ openingKinds) :
    ∀ x ∈ (tail.tokens ++ rest).head?, x.kind ∈ attachedKinds := by
  intro x hx
  cases tail with
  | none => exact List.mem_cons_of_mem _ (List.mem_cons_of_mem _ (hrest x hx))
  | braced opening inner closing =>
    cases hx
    rw [h.1]
    decide
  | unterminated mark recovered =>
    cases hx
    rw [h.1]
    decide

/-- A whole item is the first one of its tokens and of those where it stops. -/
theorem ofTokens_tokens (h : item.IsWhole) (hstop : item.StopsAt rest)
    (hrest : ∀ x ∈ rest.head?, x.kind ∈ openingKinds) :
    ofTokens (item.tokens ++ rest) = item :: ofTokens rest := by
  cases item with
  | header t kind => exact ofTokens_header h.1 h.2
  | statement t line =>
    refine ofTokens_statement h.1 h.2.2 fun hnone => ?_
    subst hnone
    have heof : rest.head?.map (·.kind) = some .eof := hstop
    rw [heof]
    decide
  | text t => exact ofTokens_text h
  | reference t name target tail =>
    obtain ⟨ht, hname, htarget, htail⟩ := h
    have hsplit : splitTail (tail.tokens ++ rest) = (tail, rest) := by
      refine splitTail_tokens htail hrest ?_
      rintro mark recovered rfl
      exact hstop
    simp only [tokens, List.cons_append, List.append_assoc]
    rw [ofTokens_cons (by rw [ht]; decide),
      first_reference ht hname htarget (htail.head?_mem hrest), hsplit]
  | stray t skipped => exact absurd h id

/-- Grouped tokens have the items that group them. -/
theorem Groups.ofTokens_eq (h : Groups items tokens) : ofTokens tokens = items := by
  induction h with
  | eof hlast => rw [ofTokens, if_pos hlast]
  | @cons item items rest hitem hstop h ih =>
    obtain ⟨t, more, rfl, ht⟩ := h.exists_head
    have hrest : ∀ x ∈ (t :: more).head?, x.kind ∈ openingKinds := by
      rintro x ⟨⟩
      exact ht
    rw [ofTokens_tokens hitem hstop hrest, ih]

/-- The tokens of items in a row are the tokens but the one for the end. -/
theorem Groups.exists_last (h : Groups items tokens) :
    ∃ last, last.kind = .eof ∧ tokens = items.flatMap Item.tokens ++ [last] := by
  induction h with
  | eof hlast => exact ⟨_, hlast, rfl⟩
  | cons _ _ _ ih =>
    obtain ⟨last, hlast, rfl⟩ := ih
    exact ⟨last, hlast, by rw [List.flatMap_cons, List.append_assoc]⟩

/-- The tokens of an item are among those of the script, in their order. -/
theorem Groups.sublist (h : Groups items tokens) (hitem : item ∈ items) :
    item.tokens.Sublist tokens := by
  obtain ⟨last, -, rfl⟩ := h.exists_last
  obtain ⟨before, after, rfl⟩ := List.append_of_mem hitem
  rw [List.flatMap_append, List.flatMap_cons, List.append_assoc, List.append_assoc]
  exact (List.sublist_append_left _ _).trans (List.sublist_append_right _ _)

/-- Items that group tokens are whole. -/
theorem Groups.isWhole (h : Groups items tokens) : ∀ item ∈ items, item.IsWhole := by
  induction h with
  | eof => simp
  | cons hitem _ _ ih => exact List.forall_mem_cons.mpr ⟨hitem, ih⟩

/-- The tokens of a tail in the grammar are those of a whole tail, which ends where it stops. -/
theorem exists_tail_of_grammar {ts : List Token} (htail : Token.Tail ts) (h : Grammar rest) :
    ∃ (tail : Tail) (after : List Token), splitTail (ts ++ rest) = (tail, after) ∧
      ts ++ rest = tail.tokens ++ after ∧ tail.IsWhole ∧
      ∀ mark recovered, tail = .unterminated mark recovered →
        after.head?.map (·.kind) ≠ some .text := by
  cases htail with
  | none => exact ⟨.none, rest, splitTail_of_grammar h, rfl, trivial, by simp⟩
  | @error t ht =>
    refine ⟨.unterminated t (splitText rest).1, (splitText rest).2, by simp [splitTail, ht], ?_,
      ⟨ht, fun x hx => ?_⟩, ?_⟩
    · simp [Tail.tokens, splitText, List.takeWhile_append_dropWhile]
    · have := List.all_eq_true.mp List.all_takeWhile x hx
      simpa using this
    · rintro mark recovered - hhead
      obtain ⟨x, hx, hkind⟩ := Option.map_eq_some_iff.mp hhead
      have := List.head?_dropWhile_not (·.kind == Token.Kind.text) rest
      simp only [splitText] at hx
      rw [hx] at this
      simp [hkind] at this
  | @braced t body ht hbody =>
    obtain ⟨inner, closing, hsplit, rfl⟩ := splitBraced_append hbody rest
    refine ⟨.braced t inner (some closing), rest, ?_, ?_, ⟨ht, hbody, rfl⟩, by simp⟩
    · rw [List.cons_append, splitTail, if_pos ht, hsplit]
    · simp [Tail.tokens]

/-- Tokens in the grammar are grouped by their items. -/
theorem groups_of_grammar (h : Grammar tokens) : Groups (ofTokens tokens) tokens := by
  induction hn : tokens.length using Nat.strongRecOn generalizing tokens with
  | _ n ih =>
    have step (item : Item) {rest : List Token} (htokens : tokens = item.tokens ++ rest)
        (hrest : Grammar rest) (hitem : item.IsWhole) (hstop : item.StopsAt rest) :
        Groups (ofTokens tokens) tokens := by
      obtain ⟨t, more, hhead, -, -⟩ := hitem.exists_head
      have hlength : rest.length < n := by
        rw [← hn, htokens, hhead, List.length_append, List.length_cons]
        omega
      have hgroups := Groups.cons hitem hstop (ih _ hlength hrest rfl)
      rw [htokens, hgroups.ofTokens_eq]
      exact hgroups
    cases h with
    | eof ht =>
      rw [ofTokens, if_pos ht]
      exact .eof ht
    | @header t rest ht hknown h =>
      obtain ⟨kind, hkind⟩ := Option.isSome_iff_exists.mp hknown
      exact step (.header t kind) rfl h ⟨ht, hkind⟩ trivial
    | @statement t line rest ht hknown hline h =>
      refine step (.statement t line) rfl h ⟨ht, hknown, ?_⟩ hline
      rintro x rfl
      exact hline.1
    | @text t rest ht h => exact step (.text t) rfl h ht trivial
    | @reference t name target ts rest ht hname htarget htail h =>
      obtain ⟨tail, after, hsplit, hts, hwhole, hstop⟩ := exists_tail_of_grammar htail h
      have hafter : Grammar after := by
        have := grammar_splitTail htail h
        rwa [hsplit] at this
      refine step (.reference t name target tail) ?_ hafter ⟨ht, hname, htarget, hwhole⟩ ?_
      · simp [Item.tokens, hts]
      · cases tail with
        | unterminated mark recovered => exact hstop mark recovered rfl
        | _ => trivial

/-- The items of a script group its tokens. -/
theorem groups_ofText (source : Text) :
    Groups (ofTokens (Token.ofText source)) (Token.ofText source) :=
  groups_of_grammar (Token.grammar_ofText source)

end Item

end PromptScript
