import PromptScript.Form.Render
import PromptScript.Proofs.RoundTrip.Passage
import PromptScript.Proofs.Text.Braces

/-!
# References written and read back

A written reference is its name, its target in quotes, and its body after a brace. A body that
closes all the braces it opens and no other is read up to the closing brace that is written after
it; any other body is written without one.
-/

namespace PromptScript

open Piece (scan isHorizontal)
open Lexer (ahead IsFree Phrase Attachment Tail)

namespace FormReference

/-- What a script can say of a reference: a name that the lexer takes whole, a target that fits in
quotes on a line, and a trimmed body. The rest follows from these. -/
structure IsWellFormed (r : FormReference) : Prop where
  /-- The kind is a name. -/
  kind_isName : r.kind.all Text.isName = true
  /-- A kind before a target does not end in a colon. -/
  kind_noColon : r.target.isSome = true → r.kind.getLast? ≠ some ':'
  /-- A target fits in quotes. -/
  target_noQuote : ∀ t ∈ r.target, '"' ∉ t
  /-- A target is on one line. -/
  target_line : ∀ t ∈ r.target, '\n' ∉ t
  /-- The body is trimmed. -/
  body_trim : Text.trim r.body = r.body
  /-- The type, the name and the parameters follow from the kind, the target and the body. -/
  derived : r = ofParts r.kind r.target r.body

/-- The name of a written reference, glued to its at sign. -/
def written (r : FormReference) : Text :=
  r.kind ++ (if r.target.isSome then [':'] else [])

/-- The target of a written reference in its quotes. -/
def quoted (r : FormReference) : Option Text :=
  r.target.map fun t => '"' :: (t ++ ['"'])

/-- A written reference up to its brace. -/
def lead (r : FormReference) : Text :=
  '@' :: (r.written ++ r.quoted.getD [])

/-- A reference is written as its lead, a brace, its body and, if that closes cleanly, a closing
brace. -/
theorem render_eq (r : FormReference) : r.render =
    r.lead ++ '{' :: (' ' :: r.body ++ if closesCleanly r.body then [' ', '}', '\n'] else ['\n']) := by
  unfold render lead written quoted
  cases r.target <;> simp

variable {r : FormReference} {rest after : Text} {ss : List Stretch} {body : Option Text}

/-- The written name of a reference is taken whole by the lexer. -/
theorem IsWellFormed.written_isName (h : r.IsWellFormed) : r.written.all Text.isName = true := by
  rw [written, List.all_append, h.kind_isName]
  split <;> decide

/-- A reference begins where one is written. -/
theorem IsWellFormed.startsReference (h : r.IsWellFormed) {before : Option Char}
    (hb : IsFree before) (rest : Text) :
    Lexer.startsReference before (scan ('@' :: (r.written ++ (r.quoted.getD [] ++ '{' :: rest)))) =
      true := by
  have hstops : Piece.stops Text.isName (r.quoted.getD [] ++ '{' :: rest) = true := by
    cases ht : r.target with
    | none => simp [quoted, ht, Piece.stops, show Text.isName '{' = false by decide]
    | some t => simp [quoted, ht, Piece.stops, show Text.isName '"' = false by decide]
  rw [Lexer.startsReference_of_isFree hb, Piece.scan_at h.written_isName hstops]
  cases ht : r.target with
  | none => simp [Lexer.startsReference, written, quoted, ht, Piece.scan_leftBrace]
  | some t => simp [Lexer.startsReference, written, ht]

/-- The target and the body of a written reference are attached to its name. -/
theorem IsWellFormed.attachment (h : r.IsWellFormed) (htail : Tail ('{' :: rest) ss body after) :
    ∃ ts, Attachment (('@' :: r.written).getLast? == some ':') (r.quoted.getD [] ++ '{' :: rest) ts
        r.quoted body after ∧ Stretch.join ts = r.quoted.getD [] ++ Stretch.join ss := by
  cases ht : r.target with
  | none =>
    have hquoted : r.quoted = none := by rw [quoted, ht]; rfl
    rw [hquoted]
    exact ⟨ss, .plain (fun _ => by simp) htail, rfl⟩
  | some t =>
    have hquoted : r.quoted = some ('"' :: (t ++ ['"'])) := by rw [quoted, ht]; rfl
    have hcolon : (('@' :: r.written).getLast? == some ':') = true := by
      simp [written, ht, List.getLast?_cons]
    have hcut : Text.cutQuote? (t ++ '"' :: '{' :: rest) = some (t ++ ['"'], '{' :: rest) := by
      rw [Text.cutQuote?_append (h.target_line t ht) (h.target_noQuote t ht)]
      rfl
    have hjoin : (some ('"' :: (t ++ ['"']))).getD [] ++ '{' :: rest =
        '"' :: (t ++ '"' :: '{' :: rest) := by simp
    rw [hquoted, hcolon, hjoin]
    exact ⟨_, .target hcut htail, by simp [Stretch.text]⟩

/-- A written reference is read as the reference with the body that is found after its brace. -/
theorem IsWellFormed.read (h : r.IsWellFormed) (htail : Tail ('{' :: rest) ss body after) {c : Char}
    (hlast : (Stretch.join ss).getLast? = some c) (o : Outline) (lineStart : Bool)
    {before : Option Char} (hb : IsFree before) (p : Position) :
    ∃ (q : Position) (tokens : List Token), tokens = (ahead .text false (some c) q after).tokens ∧
      o.read (ahead .text lineStart before p (r.lead ++ '{' :: rest)) =
        (o.reference
          (.ofParts r.kind r.target (Text.trim (body.getD (Draft.textOf (Item.recovered body tokens)))))
          ((Item.recovered body tokens).getLast?.any Token.endsLine)).applyAll
            (Item.ofTokens (Item.afterBody body tokens)) := by
  obtain ⟨ts, hattached, hjoin⟩ := h.attachment htail
  have hstops : Piece.stops Text.isName (r.quoted.getD [] ++ '{' :: rest) = true := by
    cases ht : r.target with
    | none => simp [quoted, ht, Piece.stops, show Text.isName '{' = false by decide]
    | some t => simp [quoted, ht, Piece.stops, show Text.isName '"' = false by decide]
  have hphrase : Phrase lineStart before ('@' :: (r.written ++ (r.quoted.getD [] ++ '{' :: rest)))
      _ false after := .reference h.written_isName hstops (h.startsReference hb rest) hattached
  obtain ⟨tokens, htokens, hread⟩ :=
    Outline.read_reference (o := o) hattached (hphrase.reads (p := p))
  have hlead : r.lead ++ '{' :: rest = '@' :: (r.written ++ (r.quoted.getD [] ++ '{' :: rest)) := by
    simp [lead]
  have hfound : Item.foundIn r.written r.quoted body tokens =
      .ofParts r.kind r.target (Text.trim (body.getD (Draft.textOf (Item.recovered body tokens)))) := by
    cases ht : r.target with
    | none => simp [Item.foundIn, Item.kindOf, written, quoted, ht]
    | some t =>
      have hkind := Text.trimEndChar_append_self (h.kind_noColon (by rw [ht]; rfl))
      have htarget := Text.trimChar_quoted (h.target_noQuote t ht)
      simp [Item.foundIn, Item.kindOf, written, quoted, ht, hkind, htarget]
  have hpassed : (('@' :: r.written ++ Stretch.join ts).getLast?.or before) = some c := by
    rw [hjoin, ← List.append_assoc, List.getLast?_append, hlast]
    rfl
  rw [Lexer.past, Lexer.before_ahead, hpassed] at htokens
  rw [hlead, hread, hfound]
  exact ⟨_, tokens, htokens, rfl⟩

end FormReference

namespace Outline

/-- An outline with nothing open at the start of a line. -/
def idle (sections : List (SectionKind × Text)) (references : List FormReference)
    (blocks : List Block) (apiCalls : List ApiCall) : Outline :=
  ⟨sections, references, blocks, apiCalls, none, none, true, false⟩

variable {sections : List (SectionKind × Text)} {references : List FormReference}
  {blocks : List Block} {apiCalls : List ApiCall} {r : FormReference}

/-- The name and the target of a written reference are a passage with any body that closes its
braces, on a line of their own. -/
theorem passes_braced (h : r.IsWellFormed) {inner : Text} (hinner : closesFrom 1 inner = true) :
    (idle sections references blocks apiCalls).Passes true (r.lead ++ '{' :: (inner ++ ['}', '\n']))
      (idle sections (references ++ [.ofParts r.kind r.target (Text.trim inner)]) blocks apiCalls)
      true := by
  intro before p rest hb
  have hcut := cutClosing?_of_closesFrom hinner ('\n' :: rest)
  obtain ⟨ss, hbody⟩ := Lexer.exists_body hcut
  obtain ⟨found, hfound, hjoin⟩ := hbody.cut
  rw [hcut] at hfound
  cases hfound
  have htail : Tail ([] ++ '{' :: (inner ++ '}' :: '\n' :: rest)) _ _ ('\n' :: rest) :=
    .braced rfl hbody hjoin
  have hlast : (Stretch.join (Stretch.ofGap [] ++ .token .braceOpen ['{'] :: ss)).getLast? =
      some '}' := by
    rw [Stretch.join_append, Stretch.join_cons, hjoin, ← List.append_assoc, ← List.append_assoc,
      List.getLast?_concat]
  obtain ⟨q, tokens, htokens, hread⟩ :=
    h.read htail hlast (idle sections references blocks apiCalls) true hb p
  simp only [Option.getD_some] at hread
  generalize FormReference.ofParts r.kind r.target (Text.trim inner) = found at hread ⊢
  obtain ⟨free, s, hfree, hbreak⟩ :=
    passes_break ((idle sections references blocks apiCalls).reference found false) false (some '}')
      q rest rfl
  have hsettled : ((idle sections references blocks apiCalls).reference found false).text ['\n'] =
      idle sections (references ++ [found]) blocks apiCalls := by
    rfl
  have hsplit : r.lead ++ '{' :: (inner ++ ['}', '\n']) ++ rest =
      r.lead ++ '{' :: (inner ++ '}' :: '\n' :: rest) := by
    simp
  refine ⟨free, s, hfree, ?_⟩
  rw [hsettled] at hbreak
  rw [hsplit, hread, ← hbreak, read]
  exact congrArg _ (congrArg Item.ofTokens htokens)

/-- A written reference whose body ends at its brace is a passage. -/
theorem passes_reference (h : r.IsWellFormed) (hclean : closesCleanly r.body = true) :
    (idle sections references blocks apiCalls).Passes true r.render
      (idle sections (references ++ [r]) blocks apiCalls) true := by
  have hspaced : closesFrom 1 (' ' :: r.body ++ [' ']) = true := by
    rw [closesFrom_append_right (by decide) (by decide), ← List.singleton_append,
      closesFrom_append_left (by decide) (by decide)]
    exact hclean
  have hrender : r.render = r.lead ++ '{' :: (' ' :: r.body ++ [' '] ++ ['}', '\n']) := by
    simp [FormReference.render_eq, hclean]
  have htrim : Text.trim (' ' :: r.body ++ [' ']) = r.body := by
    have hblank := Text.trim_append_append (a := [' ']) (b := [' ']) (by decide) (by decide) r.body
    rwa [h.body_trim] at hblank
  have hpasses : (idle sections references blocks apiCalls).Passes true _ _ true :=
    passes_braced h hspaced
  rwa [htrim, ← h.derived, ← hrender] at hpasses

/-- Where references are written, or nothing, no text token comes next. -/
theorem head?_tokens_references {rs : List FormReference} (h : ∀ r ∈ rs, r.IsWellFormed)
    {before : Option Char} (hb : IsFree before) (lineStart : Bool) (p : Position) :
    ((ahead .text lineStart before p (rs.flatMap FormReference.render)).tokens.head?.any
      Token.isText) = false := by
  cases rs with
  | nil =>
    rw [List.flatMap_nil, Lexer.tokens_ahead_nil]
    rfl
  | cons r rs =>
    have hr := h r List.mem_cons_self
    have hrender : (r :: rs).flatMap FormReference.render =
        '@' :: (r.written ++ (r.quoted.getD [] ++ '{' :: (' ' :: r.body ++
          ((if closesCleanly r.body then [' ', '}', '\n'] else ['\n']) ++
            rs.flatMap FormReference.render)))) := by
      simp [FormReference.render_eq, FormReference.lead]
    obtain ⟨ss, after, hphrase⟩ := Lexer.exists_reference lineStart (hr.startsReference hb _)
    have hreads : (ahead .text lineStart before p _).tokens = _ := hphrase.reads
    rw [hrender, hreads]
    rfl

/-- A written reference whose body is left open is read back if the lines of its body read as text
and no brace after it closes it. -/
theorem read_open_reference {rs : List FormReference} (h : r.IsWellFormed)
    (hrs : ∀ q ∈ rs, q.IsWellFormed) (hopen : closesCleanly r.body = false)
    (hlines : Text.readsAsText false (Text.lines r.body) = true)
    (hclose : Text.cutClosing? 1 (r.body ++ '\n' :: rs.flatMap FormReference.render) = none)
    {before : Option Char} (hb : IsFree before) (p : Position) :
    ∃ (free : Option Char) (q : Position), IsFree free ∧
      (idle sections references blocks apiCalls).read
          (ahead .text true before p (r.render ++ rs.flatMap FormReference.render)) =
        (idle sections (references ++ [r]) blocks apiCalls).read
          (ahead .text true free q (rs.flatMap FormReference.render)) := by
  generalize hmore : rs.flatMap FormReference.render = more at hclose ⊢
  have hrender : r.render ++ more = r.lead ++ '{' :: (' ' :: r.body ++ '\n' :: more) := by
    simp [FormReference.render_eq, hopen]
  have hclose' : Text.cutClosing? 1 (' ' :: r.body ++ '\n' :: more) = none := by
    rw [List.cons_append, ← List.singleton_append, Text.cutClosing?_append (by decide) (by decide),
      hclose]
    rfl
  have htail : Tail ([] ++ '{' :: (' ' :: r.body ++ '\n' :: more)) _ none _ := .unclosed rfl hclose'
  obtain ⟨q, tokens, htokens, hread⟩ :=
    h.read htail (c := '{') rfl (idle sections references blocks apiCalls) true hb p
  have hspaced : ' ' :: r.body ++ '\n' :: more = Text.unlines (Text.spaced r.body) ++ more := by
    rw [Text.unlines_spaced h.body_trim, List.append_assoc, List.singleton_append]
  rw [← Text.readsAsText_spaced h.body_trim] at hlines
  have hbrace : IsFree (some '{') := rfl
  obtain ⟨free, s, ts, hfree, hts, hjoin⟩ := Lexer.tokens_unlines hbrace hlines
    (fun l hl => Text.not_mem_of_mem_spaced hl) q more
  have hne : Text.spaced r.body ≠ [] := Text.spaced_ne_nil r.body
  rw [← hspaced, ← htokens, List.isEmpty_eq_false_iff.mpr hne] at hjoin
  have hnext := head?_tokens_references hrs hfree true s
  rw [hmore] at hnext
  have htexts := Lexer.isText_of_linesRead hts
  have htake : Item.recovered none tokens = ts := by
    rw [hjoin]
    exact Item.recovered_append htexts hnext
  have hdrop : Item.afterBody none tokens = (ahead .text true free s more).tokens := by
    rw [hjoin]
    exact Item.afterBody_append htexts hnext
  have hbody : Text.trim (Draft.textOf ts) = r.body := by
    have hblank := Text.trim_append_append (a := [' ']) (b := ['\n']) (by decide) (by decide) r.body
    rw [h.body_trim] at hblank
    rw [Lexer.textOf_of_linesRead hts, Text.unlines_spaced h.body_trim]
    exact hblank
  refine ⟨free, s, hfree, ?_⟩
  rw [hrender, hread, htake, hdrop, Option.getD_none, hbody, ← h.derived,
    Lexer.endsLine_of_linesRead hts hne]
  rfl

end Outline

end PromptScript
