import PromptScript.Proofs.RoundTrip.Form
import PromptScript.Proofs.RoundTrip.Meter

/-!
# Bodies that are recovered

A body that is left open is recovered from the text tokens after its brace. They give up all the
ink of its lines only if the lines read as text, so references that are read back one by one are
legible.
-/

namespace PromptScript

open Lexer (ahead IsFree Keyword Odd Reads Tail)

/-- The ink of the text tokens that come first. -/
def Item.leadingInk (tokens : List Token) : Nat :=
  (Text.ink (Draft.textOf (tokens.takeWhile Token.isText))).length

namespace Item

/-- A text token in front adds its ink to that of the text tokens after it. -/
theorem leadingInk_text {t : Token} (h : t.isText = true) (tokens : List Token) :
    leadingInk (t :: tokens) = (Text.ink t.text).length + leadingInk tokens := by
  rw [leadingInk, List.takeWhile_cons_of_pos h, Draft.textOf, List.flatMap_cons, Text.ink_append,
    List.length_append]
  rfl

/-- There is no leading ink where the first token is no text. -/
theorem leadingInk_of_head? {tokens : List Token} (h : tokens.head?.any Token.isText = false) :
    leadingInk tokens = 0 := by
  cases tokens with
  | nil => rfl
  | cons t tokens =>
    have ht : t.isText = false := h
    rw [leadingInk, List.takeWhile_cons_of_neg (by simp [ht])]
    rfl

/-- An odd line gives up less ink than it has. -/
theorem leadingInk_odd {ss : List Stretch} (h : Odd ss) (p : Position) (more : List Token) :
    leadingInk (Stretch.tokens p ss ++ more) < (Text.ink (Stretch.join ss)).length + leadingInk more := by
  cases h with
  | @comment line hink =>
    have htokens : Stretch.tokens p [.comment line] ++ more = more := rfl
    have hjoin : Stretch.join [.comment line] = line := by simp [Stretch.text]
    rw [htokens, hjoin]
    omega
  | @keyword indent ss hindent hkeyword =>
    have hink := Text.ink_of_isBlank hindent
    have hpos : 0 < (Text.ink (Stretch.join ss)).length := by
      cases hkeyword with
      | header _ hink => simp [Stretch.text]; omega
      | statement hink => simp [Stretch.text]; omega
    have hnone (p : Position) : leadingInk (Stretch.tokens p ss ++ more) = 0 := by
      cases hkeyword <;> exact leadingInk_of_head? rfl
    rw [Stretch.join_append, Stretch.join_ofText, Text.ink_append, hink, List.nil_append]
    refine Nat.lt_of_le_of_lt (Nat.le_of_eq ?_) (Nat.lt_of_lt_of_le hpos (Nat.le_add_right _ _))
    cases indent with
    | nil => exact hnone p
    | cons c indent =>
      have htokens : Stretch.tokens p (Stretch.ofText .text (c :: indent) ++ ss) ++ more =
          ⟨.text, c :: indent, p⟩ :: (Stretch.tokens (p.advance (c :: indent)) ss ++ more) := rfl
      rw [htokens, leadingInk_text rfl, hnone, hink]
      rfl

end Item

namespace Lexer

variable {qs : List FormReference}

/-- Lines before written references give up all their ink only if they read as text. -/
theorem leadingInk_unlines (hqs : ∀ q ∈ qs, q.IsWellFormed) {ls : List Text}
    (hls : ∀ l ∈ ls, '\n' ∉ l) {lineStart : Bool} {before : Option Char} (hb : IsFree before)
    {p : Position} (h : (ahead .text lineStart before p
      (Text.unlines ls ++ qs.flatMap FormReference.render)).references = qs) :
    Item.leadingInk (ahead .text lineStart before p
        (Text.unlines ls ++ qs.flatMap FormReference.render)).tokens ≤
        (Text.ink (Text.unlines ls)).length ∧
      (Item.leadingInk (ahead .text lineStart before p
          (Text.unlines ls ++ qs.flatMap FormReference.render)).tokens =
        (Text.ink (Text.unlines ls)).length → Text.readsAsText lineStart ls = true) := by
  induction ls generalizing lineStart before p with
  | nil =>
    have hnone := Item.leadingInk_of_head? (Outline.head?_tokens_references hqs hb lineStart p)
    simp only [Text.unlines_nil, List.nil_append]
    exact ⟨Nat.le_of_eq hnone, fun _ => rfl⟩
  | cons l ls ih =>
    have hl := hls l List.mem_cons_self
    have hrest : ∀ m ∈ ls, '\n' ∉ m := fun m hm => hls m (List.mem_cons_of_mem l hm)
    have hmore := getLast?_lines (Or.inl rfl) ls
    rw [List.append_nil] at hmore
    have hsplit : Text.unlines (l :: ls) ++ qs.flatMap FormReference.render =
        l ++ '\n' :: (Text.unlines ls ++ qs.flatMap FormReference.render) := by simp
    rw [hsplit] at h ⊢
    obtain ⟨ss, hss, hjoin, hreads, hreferences⟩ := exists_line hqs hl hmore hb h
    have hbreak : IsFree ((l ++ ['\n']).getLast?.or before) := by
      rw [List.getLast?_concat]
      rfl
    obtain ⟨more, q, htokens, hle, htext⟩ : ∃ (more : List Token) (q : Position),
        (ahead .text lineStart before p
          (l ++ '\n' :: (Text.unlines ls ++ qs.flatMap FormReference.render))).tokens =
            Stretch.tokens q ss ++ more ∧
          Item.leadingInk more ≤ (Text.ink (Text.unlines ls)).length ∧
          (Item.leadingInk more = (Text.ink (Text.unlines ls)).length →
            Text.readsAsText true ls = true) := by
      rw [tokens_of_reads hreads, hjoin]
      exact ⟨_, _, rfl, ih hrest hbreak hreferences⟩
    rw [htokens, Text.length_ink_unlines_cons]
    -- a line of text adds its ink, and any other line stops the count short of its own
    rcases hss with ⟨rfl, hplain⟩ | ⟨-, hodd⟩
    · have hline : Item.leadingInk (Stretch.tokens q [.token .text (l ++ ['\n'])] ++ more) =
          (Text.ink (l ++ ['\n'])).length + Item.leadingInk more := Item.leadingInk_text rfl more
      rw [hline, Text.length_ink_line, Text.readsAsText_cons]
      exact ⟨Nat.add_le_add_left hle _, fun heq => by rw [hplain, htext (by omega)]; rfl⟩
    · have hless := Item.leadingInk_odd hodd q more
      rw [hjoin, Text.length_ink_line] at hless
      exact ⟨by omega, fun heq => by omega⟩

end Lexer

namespace FormReference

variable {r : FormReference} {rs : List FormReference}

/-- If a reference is the first that its written form gives, then its body is what is found after
its brace, and the other references are those of the items after it. -/
theorem IsWellFormed.of_references (hr : r.IsWellFormed) {rest after : Text} {ss : List Stretch}
    {body : Option Text} (htail : Tail ('{' :: rest) ss body after) {c : Char}
    (hlast : (Stretch.join ss).getLast? = some c) {before : Option Char} (hb : IsFree before)
    {p : Position} (h : (ahead .text true before p (r.lead ++ '{' :: rest)).references = r :: rs) :
    ∃ (q : Position) (tokens : List Token), tokens = (ahead .text false (some c) q after).tokens ∧
      r.body = Text.trim (body.getD (Draft.textOf (Item.recovered body tokens))) ∧
      (Item.ofTokens (Item.afterBody body tokens)).filterMap Item.reference? = rs := by
  obtain ⟨q, tokens, htokens, hread⟩ := hr.read htail hlast Outline.empty true hb p
  have hall := congrArg Outline.references hread
  have hsame : Outline.empty.references = [] := rfl
  have hfound (found : FormReference) (endsLine : Bool) :
      (Outline.empty.reference found endsLine).references = [found] := by
    cases endsLine <;> rfl
  rw [Lexer.references_read, h, Outline.references_applyAll, hfound, hsame] at hall
  obtain ⟨hfirst, hrest⟩ := List.cons.inj hall
  exact ⟨q, tokens, htokens, congrArg FormReference.body hfirst, hrest.symm⟩

/-- A body that is left open is not closed by what comes after it if it is read back. -/
theorem IsWellFormed.cutClosing?_eq_none (hr : r.IsWellFormed) (hopen : closesCleanly r.body = false)
    {rest : Text} {before : Option Char} (hb : IsFree before) {p : Position}
    (h : (ahead .text true before p (r.lead ++ '{' :: rest)).references = r :: rs) :
    Text.cutClosing? 1 rest = none := by
  cases hcut : Text.cutClosing? 1 rest with
  | none => rfl
  | some parts =>
    obtain ⟨inner, after⟩ := parts
    obtain ⟨ss, hbody⟩ := Lexer.exists_body hcut
    obtain ⟨found, hfound, hjoin⟩ := hbody.cut
    rw [hcut] at hfound
    cases hfound
    have htail : Tail ([] ++ '{' :: rest) _ _ after := .braced rfl hbody hjoin
    have hlast : (Stretch.join (Stretch.ofGap [] ++ .token .braceOpen ['{'] :: ss)).getLast? =
        some '}' := by
      rw [Stretch.join_append, Stretch.join_cons, hjoin, ← List.append_assoc, ← List.append_assoc,
        List.getLast?_concat]
    obtain ⟨q, tokens, -, hsame, -⟩ := hr.of_references htail hlast hb h
    rw [Option.getD_some] at hsame
    have hcloses := closesFrom_of_cutClosing? (Nat.le_refl 1) hcut
    rw [hsame, closesCleanly_trim, closesCleanly, hcloses] at hopen
    cases hopen

/-- The lines of a body that is left open and read back read as text. -/
theorem IsWellFormed.readsAsText (hr : r.IsWellFormed) (hrs : ∀ q ∈ rs, q.IsWellFormed)
    (hnone : Text.cutClosing? 1 (' ' :: r.body ++ '\n' :: rs.flatMap render) = none)
    {before : Option Char} (hb : IsFree before) {p : Position}
    (h : (ahead .text true before p (r.lead ++ '{' :: (' ' :: r.body ++ '\n' ::
      rs.flatMap render))).references = r :: rs) :
    Text.readsAsText false (Text.lines r.body) = true := by
  have htail : Tail ([] ++ '{' :: (' ' :: r.body ++ '\n' :: rs.flatMap render)) _ none _ :=
    .unclosed rfl hnone
  obtain ⟨q, tokens, htokens, hbody, hrest⟩ := hr.of_references htail (c := '{') rfl hb h
  have hspaced : ' ' :: r.body ++ '\n' :: rs.flatMap render =
      Text.unlines (Text.spaced r.body) ++ rs.flatMap render := by
    rw [Text.unlines_spaced hr.body_trim, List.append_assoc, List.singleton_append]
  rw [hspaced] at htokens
  have hreferences : (ahead .text false (some '{') q
      (Text.unlines (Text.spaced r.body) ++ rs.flatMap render)).references = rs := by
    rw [Lexer.references, ← htokens, ← Lexer.references_dropWhile]
    exact hrest
  have hbrace : IsFree (some '{') := rfl
  obtain ⟨-, htext⟩ := Lexer.leadingInk_unlines hrs
    (fun l hl => Text.not_mem_of_mem_spaced hl) hbrace hreferences
  have hink : Item.leadingInk tokens = (Text.ink r.body).length := by
    conv => rhs; rw [hbody, Text.ink_trim]
    rfl
  rw [← Text.readsAsText_spaced hr.body_trim]
  refine htext ?_
  rw [← htokens, hink, Text.unlines_spaced hr.body_trim, Text.length_ink_line, Text.ink_blank]

/-- Written references that are read back one by one are told apart. -/
theorem areLegible_of_references (hrs : ∀ r ∈ rs, r.IsWellFormed) {before : Option Char}
    (hb : IsFree before) {p : Position}
    (h : (ahead .text true before p (rs.flatMap render)).references = rs) : areLegible rs = true := by
  induction rs generalizing before p with
  | nil => rfl
  | cons r rs ih =>
    have hr := hrs r List.mem_cons_self
    have hrest : ∀ q ∈ rs, q.IsWellFormed := fun q hq => hrs q (List.mem_cons_of_mem r hq)
    have hnext {free : Option Char} {q : Position} (hfree : IsFree free)
        (hread : (Outline.idle [] [] [] []).read (ahead .text true before p
          ((r :: rs).flatMap render)) =
            (Outline.idle [] [r] [] []).read (ahead .text true free q (rs.flatMap render))) :
        areLegible rs = true := by
      have hall := congrArg Outline.references hread
      rw [Lexer.references_read, Lexer.references_read, h] at hall
      exact ih hrest hfree (List.cons.inj hall).2.symm
    rw [List.flatMap_cons] at h hnext
    by_cases hclean : closesCleanly r.body = true
    · obtain ⟨free, q, hfree, hread⟩ := Outline.passes_reference hr hclean before p
        (rs.flatMap render) hb
      rw [areLegible, hclean, hnext hfree hread]
      rfl
    · have hopen : closesCleanly r.body = false := by simpa using hclean
      have hrender : r.render ++ rs.flatMap render =
          r.lead ++ '{' :: (' ' :: r.body ++ '\n' :: rs.flatMap render) := by
        simp [render_eq, hopen]
      have hwritten := h
      rw [hrender] at hwritten
      have hnone := hr.cutClosing?_eq_none hopen hb hwritten
      have hlines := hr.readsAsText hrest hnone hb hwritten
      have hclose : Text.cutClosing? 1 (r.body ++ '\n' :: rs.flatMap render) = none := by
        rw [List.cons_append, ← List.singleton_append, Text.cutClosing?_append (by decide) (by decide)]
          at hnone
        exact Option.map_eq_none_iff.mp hnone
      obtain ⟨free, q, hfree, hread⟩ := Outline.read_open_reference hr hrest hopen hlines hclose hb p
      rw [areLegible, hlines, hclose, hnext hfree hread]
      simp

end FormReference

end PromptScript
