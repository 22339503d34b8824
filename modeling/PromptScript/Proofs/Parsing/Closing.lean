import Mathlib.Data.List.Basic
import PromptScript.Proofs.Lexing.Order
import PromptScript.Proofs.Parsing.Bodies

/-!
# The brace that ends a body

A reference is written with its body closed or left open, by a count of the braces of the body. The
lexer never asks for that count: it looks ahead for a brace that closes the one it stands at, and
then reads brace by brace. Both come to the same: a body is written closed just if the brace written
after it is the one that ends it when it is read.
-/

namespace PromptScript

/-- Two parts of a text from its start on that end at one place are the same. -/
theorem Position.eq_of_after_eq {t a b : Text} (ha : a <+: t) (hb : b <+: t)
    (h : after a = after b) : a = b := by
  have shorter {a b : Text} (hle : a <+: b) (h : after a = after b) : a = b := by
    obtain ⟨d, rfl⟩ := hle
    rw [← advance_after] at h
    by_cases hd : d = []
    · rw [hd, List.append_nil]
    · exact absurd h (Position.ne_of_lt (lt_advance _ hd))
  rcases List.prefix_or_prefix_of_prefix ha hb with hle | hle
  · exact shorter hle h
  · exact (shorter hle h.symm).symm

/-- The last token of a body is the brace that comes after its text. -/
theorem Lexer.Body.exists_tokens {inside body after : Text} {ss : List Stretch}
    (h : Body 1 inside ss after) (hcut : Text.cutClosing? 1 inside = some (body, after))
    (passed : Text) :
    ∃ inner, Stretch.tokens (.after (passed ++ ['{'])) ss =
        inner ++ [⟨.braceClose, ['}'], .after (passed ++ '{' :: body)⟩] ∧
      Token.Body 1 (inner ++ [⟨.braceClose, ['}'], .after (passed ++ '{' :: body)⟩]) := by
  obtain ⟨found, hfound, hjoin⟩ := h.cut
  cases hcut.symm.trans hfound
  obtain ⟨init, rfl⟩ := h.last
  have hinit : Stretch.join init = body := by simpa [Stretch.text] using hjoin
  have htokens := Stretch.tokens_append (.after (passed ++ ['{'])) init [.token .braceClose ['}']]
  rw [hinit, Position.advance_after, List.append_assoc, List.singleton_append] at htokens
  exact ⟨_, htokens, htokens ▸ h.grammar (Nat.le_refl 1) (.after (passed ++ ['{']))⟩

namespace Token

variable {tokens : List Token} {opening closing other : Token}

/-- The tokens of a body at the front of others are known from all of them. -/
theorem Body.eq_of_append_eq {depth : Nat} {ts us more others : List Token} (hts : Body depth ts)
    (hus : Body depth us) (h : ts ++ more = us ++ others) : ts = us := by
  obtain ⟨inner, last, hsplit, rfl⟩ := Item.splitBraced_append hts more
  obtain ⟨found, final, hfound, rfl⟩ := Item.splitBraced_append hus others
  rw [h, hfound] at hsplit
  cases hsplit
  rfl

/-- Whether among some tokens one opens the body of a reference and another ends it: the body is
the tokens between them, inside one brace throughout, and the other closes that brace. -/
def EndsBody (tokens : List Token) (opening closing : Token) : Prop :=
  ∃ before inner after, tokens = before ++ opening :: (inner ++ closing :: after) ∧
    opening.kind = .braceOpen ∧ Body 1 (inner ++ [closing])

namespace EndsBody

/-- The brace in front of a body is one of the tokens. -/
theorem mem (h : EndsBody tokens opening closing) : opening ∈ tokens := by
  obtain ⟨before, inner, after, rfl, -, -⟩ := h
  simp

/-- One token ends a body. -/
theorem unique (h : EndsBody tokens opening closing) (hother : EndsBody tokens opening other)
    (hplaces : tokens.Pairwise fun a b => a.place < b.place) : closing = other := by
  obtain ⟨before, inner, after, rfl, -, hbody⟩ := h
  obtain ⟨front, found, back, heq, -, hfound⟩ := hother
  obtain ⟨-, htokens, hfront⟩ := List.pairwise_append.mp hplaces
  have hbefore : opening ∉ before := fun hmem =>
    Position.ne_of_lt (hfront opening hmem opening List.mem_cons_self) rfl
  have hafter : opening ∉ inner ++ closing :: after := fun hmem =>
    Position.ne_of_lt ((List.pairwise_cons.mp htokens).1 opening hmem) rfl
  obtain ⟨-, -, htail⟩ := (List.append_cons_inj_of_notMem hbefore hafter).mp heq
  have hbodies : inner ++ [closing] ++ after = found ++ [other] ++ back := by simpa using htail
  have hsame := hbody.eq_of_append_eq hfound hbodies
  exact List.singleton_inj.mp (List.append_inj_right' hsame rfl)

end EndsBody

variable {name inside body after : Text}

/-- Behind the at sign and a name stand the tokens of what follows from a brace on. -/
theorem exists_ofText_tail (hname : name.all Text.isName = true) {ss : List Stretch}
    {found : Option Text} (h : Lexer.Tail ('{' :: inside) ss found after) :
    ∃ front more, Token.ofText ('@' :: (name ++ '{' :: inside)) =
      front ++ (Stretch.tokens (.after ('@' :: name)) ss ++ more) := by
  have hscan : Piece.scan ('@' :: (name ++ '{' :: inside)) = _ := Piece.scan_at hname rfl
  have hstart : Lexer.startsReference none (Piece.scan ('@' :: (name ++ '{' :: inside))) = true := by
    rw [hscan, Piece.scan_leftBrace]
    simp [Lexer.startsReference]
  have hphrase : Lexer.Phrase true none ('@' :: (name ++ '{' :: inside)) _ _ _ :=
    .reference hname rfl hstart (.plain (by simp) h)
  obtain ⟨ts, hts⟩ := Lexer.exists_phrases _ _ after
  have htokens : Token.ofText ('@' :: (name ++ '{' :: inside)) = _ :=
    (Lexer.Phrases.cons hphrase hts).tokens .start
  have hjoin : Stretch.join (.token .referenceStart ['@'] :: Stretch.ofText .identifier name) =
      '@' :: name := by simp [Stretch.text]
  rw [htokens, ← List.cons_append, Stretch.tokens_append, Stretch.tokens_append, hjoin,
    Position.advance_start, List.append_assoc, List.append_assoc]
  exact ⟨_, _, rfl⟩

/-- A brace that nothing closes is an error. -/
theorem error_mem_ofText (hname : name.all Text.isName = true)
    (h : Text.cutClosing? 1 inside = none) :
    ⟨.error, ['{'], .after ('@' :: name)⟩ ∈ Token.ofText ('@' :: (name ++ '{' :: inside)) := by
  have htail : Lexer.Tail ('{' :: inside) [.token .error ['{']] none inside :=
    @Lexer.Tail.unclosed [] inside rfl h
  obtain ⟨front, more, htokens⟩ := exists_ofText_tail hname htail
  rw [htokens]
  simp [Stretch.tokens]

/-- A brace that another closes opens a body, which the other ends. -/
theorem endsBody_ofText (hname : name.all Text.isName = true)
    (h : Text.cutClosing? 1 inside = some (body, after)) :
    EndsBody (Token.ofText ('@' :: (name ++ '{' :: inside)))
      ⟨.braceOpen, ['{'], .after ('@' :: name)⟩
      ⟨.braceClose, ['}'], .after ('@' :: (name ++ '{' :: body))⟩ := by
  obtain ⟨ss, hbody⟩ := Lexer.exists_body h
  obtain ⟨found, -, hjoin⟩ := hbody.cut
  have htail : Lexer.Tail ('{' :: inside) (.token .braceOpen ['{'] :: ss) (some found) after :=
    @Lexer.Tail.braced [] inside found after ss rfl hbody hjoin
  obtain ⟨front, more, htokens⟩ := exists_ofText_tail hname htail
  obtain ⟨inner, hinside, hinner⟩ := hbody.exists_tokens h ('@' :: name)
  rw [Stretch.tokens, Position.advance_after, hinside] at htokens
  exact ⟨front, inner, more, by simpa using htokens, rfl, hinner⟩

end Token

/-- Written in braces after a name, a text closes the first of them just if the last ends its body. -/
theorem closesFrom_one_iff_endsBody {name : Text} (hname : name.all Text.isName = true)
    (inside : Text) :
    closesFrom 1 inside = true ↔
      Token.EndsBody (Token.ofText ('@' :: (name ++ '{' :: (inside ++ ['}']))))
        ⟨.braceOpen, ['{'], .after ('@' :: name)⟩
        ⟨.braceClose, ['}'], .after ('@' :: (name ++ '{' :: inside))⟩ := by
  constructor
  · intro h
    exact Token.endsBody_ofText hname (cutClosing?_of_closesFrom h [])
  · intro h
    have hplaces := Token.pairwise_ofText ('@' :: (name ++ '{' :: (inside ++ ['}'])))
    cases hcut : Text.cutClosing? 1 (inside ++ ['}']) with
    | none =>
      have herror := Token.eq_of_place_eq hplaces h.mem (Token.error_mem_ofText hname hcut) rfl
      cases congrArg Token.kind herror
    | some parts =>
      obtain ⟨body, after⟩ := parts
      have hclosing := h.unique (Token.endsBody_ofText hname hcut) hplaces
      -- the last brace and the one that ends the body stand at one place, past one text
      have hsame := Position.eq_of_after_eq (t := '@' :: (name ++ '{' :: (inside ++ ['}'])))
        (by simp) ⟨'}' :: after, by simp [Text.cutClosing?_join hcut]⟩ (congrArg Token.place hclosing)
      have hbody : inside = body := by simpa using hsame
      rw [hbody]
      exact closesFrom_of_cutClosing? (Nat.le_refl 1) hcut

/-- A text closes cleanly as a body just if, in a script of a reference with that body in braces, the
first brace opens the body of the reference and the last one ends it. -/
theorem closesCleanly_iff_endsBody (b : Text) :
    closesCleanly b = true ↔
      Token.EndsBody (Token.ofText ("@k\x7b ".toList ++ b ++ " \x7d".toList))
        ⟨.braceOpen, ['{'], .after "@k".toList⟩
        ⟨.braceClose, ['}'], .after ("@k\x7b ".toList ++ b ++ [' '])⟩ := by
  have hspaces : closesFrom 1 (' ' :: (b ++ [' '])) = closesCleanly b :=
    closesFrom_append_right (by decide) (by decide) 1 b
  have hname : List.all ['k'] Text.isName = true := by decide
  have hiff := closesFrom_one_iff_endsBody hname (' ' :: (b ++ [' ']))
  rw [hspaces] at hiff
  simpa using hiff

end PromptScript
