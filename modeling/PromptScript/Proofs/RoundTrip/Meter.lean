import PromptScript.Proofs.RoundTrip.Line

/-!
# Measuring what is collected

A meter bounds the ink that is collected in one part of an outline. Each item raises it by no more
than the ink of its text, so an odd line leaves less ink than it has, and lines from which all ink
is collected read as text.
-/

namespace PromptScript

open Lexer (ahead IsFree Keyword Odd Reads)
open FormReference (render)

namespace Text

/-- Lines read as text if the first one does and the others do where a line begins. -/
theorem readsAsText_cons (lineStart : Bool) (l : Text) (ls : List Text) :
    readsAsText lineStart (l :: ls) = (readsAsText lineStart [l] && readsAsText true ls) := by
  cases ls <;> simp [readsAsText]

/-- A line break adds no ink. -/
theorem length_ink_line (l : Text) : (ink (l ++ ['\n'])).length = (ink l).length := by
  have hbreak : ink ['\n'] = [] := by decide
  rw [ink_append, hbreak, List.append_nil]

/-- The ink of lines is that of each. -/
theorem length_ink_unlines_cons (l : Text) (ls : List Text) :
    (ink (unlines (l :: ls))).length = (ink l).length + (ink (unlines ls)).length := by
  rw [unlines_cons, List.append_cons, ink_append, List.length_append, length_ink_line]

/-- The lines of a trimmed text have its ink. -/
theorem length_ink_unlines_lines {t : Text} (h : trim t = t) :
    (ink (unlines (lines t))).length = (ink t).length := by
  by_cases hne : t = []
  · subst hne
    rfl
  · rw [unlines_lines hne (getLast?_ne_of_trim h), length_ink_line]

end Text

namespace Outline

/-- Whether the line just ended and nothing is known of the next one. -/
def IsFresh (o : Outline) : Prop :=
  o.lineBlank = true ∧ o.lineHasReference = false

/-- Text that ends its line makes an outline fresh. -/
theorem isFresh_text (o : Outline) {t : Text} (h : Text.endsLine t = true) : (o.text t).IsFresh := by
  have hedit (o : Outline) (change : TextBuffer → TextBuffer) :
      (o.edit change).lineBlank = o.lineBlank := by
    unfold edit
    split <;> rfl
  unfold text
  split
  · rename_i hline
    split
    · exact ⟨(hedit o _).trans hline.1, rfl⟩
    · rename_i hreference
      have hno : o.lineHasReference = false := by simpa using hreference
      split
      · exact ⟨hline.1, hno⟩
      · unfold finishSection
        split <;> exact ⟨hline.1, hno⟩
  · exact ⟨by simp [setLine, h], by simp [setLine, h]⟩

/-- A statement makes an outline fresh. -/
theorem isFresh_statement (o : Outline) (word : Text) (rest : Option Text) :
    (o.statement word rest).IsFresh := by
  have hready : (o.finishSection.setLine true false).IsFresh := ⟨rfl, rfl⟩
  have hopen {m : Outline} (hm : m.IsFresh) (opening : Opening) (t : Text) :
      (m.openNew opening t).IsFresh := by
    unfold openNew
    split <;> exact hm
  unfold statement
  split
  · rename_i w _
    cases w with
    | conditional =>
      unfold perform conditional
      dsimp only
      split <;> exact hopen hready ..
    | forEach =>
      unfold perform forEach
      dsimp only
      split <;> exact hopen hready ..
    | onError => exact hopen hready ..
    | otherwise =>
      unfold perform otherwise
      dsimp only
      split <;> exact hready
    | finish =>
      unfold perform finishBlock
      dsimp only
      split <;> exact hready
    | callApi =>
      unfold perform callApi
      dsimp only
      split <;> exact hready
  · exact hready

/-- A bound on the ink collected in a part of an outline that no item raises by more than the ink of
its text. -/
structure IsMeter (P : Nat → Outline → Prop) : Prop where
  /-- A bound may be larger. -/
  mono : ∀ {n m : Nat} {o : Outline}, P n o → n ≤ m → P m o
  /-- Text raises it by its ink. -/
  text : ∀ {n : Nat} {o : Outline} (t : Text), P n o → P (n + (Text.ink t).length) (o.text t)
  /-- A header does not raise it. -/
  header : ∀ {n : Nat} {o : Outline} (kind : SectionKind), P n o → P n (o.header kind)
  /-- A statement raises it by the ink of the rest of its line. -/
  statement : ∀ {n : Nat} {o : Outline} (word line : Text), P n o →
    P (n + (Text.ink line).length) (o.statement word (some line))

variable {P : Nat → Outline → Prop} {n : Nat} {o : Outline}

/-- A keyword and the rest of its line leave less ink than they have. -/
theorem IsMeter.keyword (hP : IsMeter P) {ss : List Stretch} (h : Keyword ss) (hn : P n o)
    (p : Position) :
    ∃ (m : Outline) (k : Nat), k < (Text.ink (Stretch.join ss)).length ∧ P (n + k) m ∧ m.IsFresh ∧
      ∀ more, o.applyAll (Item.ofTokens (Stretch.tokens p ss ++ more)) = m.applyAll (Item.ofTokens more) := by
  cases h with
  | @header word line hword hink hends =>
    obtain ⟨kind, hkind⟩ := Option.isSome_iff_exists.mp hword
    refine ⟨(o.header kind).text line, (Text.ink line).length, ?_, hP.text line (hP.header kind hn),
      isFresh_text _ hends, fun more => ?_⟩
    · simp [Stretch.text, hink]
    · have htokens : Stretch.tokens p [.token .sectionKeyword word, .token .text line] ++ more =
          ⟨.sectionKeyword, word, p⟩ :: ⟨.text, line, p.advance word⟩ :: more := rfl
      have hheader : Item.ofTokens (⟨.sectionKeyword, word, p⟩ ::
          ⟨.text, line, p.advance word⟩ :: more) = _ := Item.ofTokens_header rfl hkind
      have htext : Item.ofTokens (⟨.text, line, p.advance word⟩ :: more) = _ := Item.ofTokens_text rfl
      rw [htokens, hheader, htext]
      rfl
  | @statement word line hink =>
    refine ⟨o.statement word (some line), (Text.ink line).length, ?_, hP.statement word line hn,
      isFresh_statement .., fun more => ?_⟩
    · simp [Stretch.text, hink]
    · have htokens : Stretch.tokens p [.token .statementKeyword word, .token .text line] ++ more =
          ⟨.statementKeyword, word, p⟩ ::
            (Option.toList (some ⟨.text, line, p.advance word⟩) ++ more) := rfl
      rw [htokens, Item.ofTokens_statement rfl (by simp) (by simp), applyAll_cons]
      rfl

/-- An odd line leaves less ink than it has. -/
theorem IsMeter.odd (hP : IsMeter P) {ss : List Stretch} (h : Odd ss) (hn : P n o) (p : Position) :
    ∃ (m : Outline) (k : Nat), k < (Text.ink (Stretch.join ss)).length ∧ P (n + k) m ∧
      (o.IsFresh → m.IsFresh) ∧ ∀ more,
      o.applyAll (Item.ofTokens (Stretch.tokens p ss ++ more)) = m.applyAll (Item.ofTokens more) := by
  cases h with
  | comment hink => exact ⟨o, 0, by simpa [Stretch.text] using hink, hn, id, fun _ => rfl⟩
  | @keyword indent ss hindent hkeyword =>
    have hink := Text.ink_of_isBlank hindent
    cases indent with
    | nil =>
      obtain ⟨m, k, hk, hm, hfresh, hread⟩ := hP.keyword hkeyword hn p
      exact ⟨m, k, hk, hm, fun _ => hfresh, hread⟩
    | cons c indent =>
      have htext := hP.text (c :: indent) hn
      rw [hink] at htext
      obtain ⟨m, k, hk, hm, hfresh, hread⟩ := hP.keyword hkeyword htext (p.advance (c :: indent))
      refine ⟨m, k, ?_, hm, fun _ => hfresh, fun more => ?_⟩
      · rw [Stretch.join_append, Stretch.join_ofText, Text.ink_append, hink]
        exact hk
      · have htokens : Stretch.tokens p (Stretch.ofText .text (c :: indent) ++ ss) ++ more =
            ⟨.text, c :: indent, p⟩ :: (Stretch.tokens (p.advance (c :: indent)) ss ++ more) := rfl
        rw [htokens, Item.ofTokens_text rfl, applyAll_cons]
        exact hread more

/-- From one line a meter collects no more ink than it has, and all of it only if it reads as text. -/
theorem IsMeter.line (hP : IsMeter P) {lineStart : Bool} {l : Text} {ss : List Stretch}
    (hss : ss = [.token .text (l ++ ['\n'])] ∧ Text.readsAsText lineStart [l] = true ∨
      lineStart = true ∧ Odd ss)
    (hjoin : Stretch.join ss = l ++ ['\n']) (hn : P n o) (p : Position) :
    ∃ (m : Outline) (k : Nat), P (n + k) m ∧ k ≤ (Text.ink l).length ∧
      (k = (Text.ink l).length → Text.readsAsText lineStart [l] = true) ∧
      ((lineStart = true → o.IsFresh) → m.IsFresh) ∧ ∀ more,
      o.applyAll (Item.ofTokens (Stretch.tokens p ss ++ more)) = m.applyAll (Item.ofTokens more) := by
  rcases hss with ⟨rfl, hplain⟩ | ⟨rfl, hodd⟩
  · have htext := hP.text (l ++ ['\n']) hn
    rw [Text.length_ink_line] at htext
    refine ⟨o.text (l ++ ['\n']), (Text.ink l).length, htext, Nat.le_refl _, fun _ => hplain,
      fun _ => isFresh_text o (by simp [Text.endsLine]), fun more => ?_⟩
    have hitems : Item.ofTokens (⟨.text, l ++ ['\n'], p⟩ :: more) = _ := Item.ofTokens_text rfl
    simp only [Stretch.tokens, List.cons_append, List.nil_append]
    rw [hitems]
    rfl
  · obtain ⟨m, k, hk, hm, hfresh, hread⟩ := hP.odd hodd hn p
    rw [hjoin, Text.length_ink_line] at hk
    exact ⟨m, k, hm, Nat.le_of_lt hk, fun heq => absurd heq (Nat.ne_of_lt hk),
      fun hstart => hfresh (hstart rfl), hread⟩

/-- From lines where no reference begins a meter collects no more ink than they have, and all of it
only if they read as text. -/
theorem IsMeter.lines (hP : IsMeter P) {qs : List FormReference} (hqs : ∀ q ∈ qs, q.IsWellFormed)
    {ls : List Text} (hls : ∀ l ∈ ls, '\n' ∉ l) {u : Text} (hu : u = [] ∨ u.getLast? = some '\n')
    {lineStart : Bool} {before : Option Char} (hb : IsFree before) {p : Position}
    (h : (ahead .text lineStart before p (Text.unlines ls ++ (u ++ qs.flatMap render))).references = qs)
    (hn : P n o) :
    ∃ (m : Outline) (k : Nat) (free : Option Char) (q : Position), IsFree free ∧
      o.read (ahead .text lineStart before p (Text.unlines ls ++ (u ++ qs.flatMap render))) =
        m.read (ahead .text (lineStart || !ls.isEmpty) free q (u ++ qs.flatMap render)) ∧
      (ahead .text (lineStart || !ls.isEmpty) free q (u ++ qs.flatMap render)).references = qs ∧
      ((lineStart = true → o.IsFresh) → (lineStart || !ls.isEmpty) = true → m.IsFresh) ∧
      P (n + k) m ∧ k ≤ (Text.ink (Text.unlines ls)).length ∧
      (k = (Text.ink (Text.unlines ls)).length → Text.readsAsText lineStart ls = true) := by
  induction ls generalizing lineStart before p n o with
  | nil =>
    refine ⟨o, 0, before, p, hb, by simp, by simpa using h, fun hfresh hstart => hfresh ?_, hn,
      Nat.zero_le _, fun _ => rfl⟩
    simpa using hstart
  | cons l ls ih =>
    have hl := hls l List.mem_cons_self
    have hrest : ∀ m ∈ ls, '\n' ∉ m := fun m hm => hls m (List.mem_cons_of_mem l hm)
    have hmore := Lexer.getLast?_lines hu ls
    have hsplit : Text.unlines (l :: ls) ++ (u ++ qs.flatMap render) =
        l ++ '\n' :: (Text.unlines ls ++ u ++ qs.flatMap render) := by simp
    rw [hsplit] at h ⊢
    obtain ⟨ss, hss, hjoin, hreads, hreferences⟩ := Lexer.exists_line hqs hl hmore hb h
    have htokens := Lexer.tokens_of_reads hreads
    rw [hjoin] at htokens
    -- past the line the outline is `m`, and `k` is the ink collected from it
    obtain ⟨m, k, hm, hk, hkline, hfresh, hread⟩ := hP.line hss hjoin hn p
    have hbreak : IsFree ((l ++ ['\n']).getLast?.or before) := by
      rw [List.getLast?_concat]
      rfl
    simp only [Lexer.past, Lexer.before_ahead, Lexer.place_ahead, List.append_assoc] at hreferences
    obtain ⟨m', k', free, q, hfree, hread', hreferences', hfresh', hm', hk', hkline'⟩ :=
      ih hrest hbreak hreferences hm
    refine ⟨m', k + k', free, q, hfree, ?_, by simpa using hreferences', ?_, ?_, ?_, ?_⟩
    · rw [read, htokens, Lexer.place_ahead, hread]
      simpa [read, Lexer.past] using hread'
    · exact fun hstart _ => hfresh' (fun _ => hfresh hstart) rfl
    · rwa [← Nat.add_assoc]
    · rw [Text.length_ink_unlines_cons]
      omega
    · intro hall
      rw [Text.length_ink_unlines_cons] at hall
      rw [Text.readsAsText_cons, hkline (by omega), hkline' (by omega)]
      rfl

end Outline

end PromptScript
