import PromptScript.Proofs.RoundTrip.Quiet

/-!
# Text before written references

If a script is lines of text and then written references, and it gives no other references than
those, then no reference begins in its lines: a body that reaches from the lines into the written
references would swallow more than it gives back.
-/

namespace PromptScript

open Piece (scan)
open Lexer (ahead IsFree)

namespace Lexer

open FormReference (render)

/-- Whether, in scripts of bounded length, text that ends a line before written references gives
no reference of its own unless others are lost. -/
def Settles (n : Nat) : Prop :=
  ∀ (qs : List FormReference) (u : Text) (lineStart : Bool) (before : Option Char) (p : Position),
    (∀ q ∈ qs, q.IsWellFormed) → u.getLast? = some '\n' → (u ++ qs.flatMap render).length ≤ n →
      (ahead .text lineStart before p (u ++ qs.flatMap render)).references <:+ qs →
        (ahead .text lineStart before p (u ++ qs.flatMap render)).references = qs ∧
          startsReference before (scan (u ++ qs.flatMap render)) = false

variable {n : Nat} {qs : List FormReference}

/-- Written references are not lost in part. -/
theorem Settles.references_eq (h : Settles n) (hqs : ∀ q ∈ qs, q.IsWellFormed)
    (hlen : (qs.flatMap render).length ≤ n) {before : Option Char} (hb : IsFree before)
    (lineStart : Bool) (p : Position)
    (hsuffix : (ahead .text lineStart before p (qs.flatMap render)).references <:+ qs) :
    (ahead .text lineStart before p (qs.flatMap render)).references = qs := by
  cases qs with
  | nil => exact List.suffix_nil.mp hsuffix
  | cons q qs =>
    rcases List.suffix_cons_iff.mp hsuffix with heq | hrest
    · exact heq
    · have hq := hqs q List.mem_cons_self
      rw [List.flatMap_cons] at hlen hrest
      have hno := (h qs q.render lineStart before p (fun r hr => hqs r (List.mem_cons_of_mem q hr))
        q.getLast?_render hlen hrest).2
      rw [hq.startsReference_render hb] at hno
      cases hno

/-- Phrase by phrase the lexer comes to each start of a line, so no reference begins there. -/
theorem Settles.not_startsReference_line (h : Settles n) (hqs : ∀ q ∈ qs, q.IsWellFormed)
    {a w : Text} (ha : a = [] ∨ a.getLast? = some '\n') (hw : w.getLast? = some '\n')
    (hlen : (a ++ w ++ qs.flatMap render).length ≤ n) {lineStart : Bool} {before : Option Char}
    (hb : a = [] → IsFree before) {p : Position}
    (hsuffix : (ahead .text lineStart before p (a ++ w ++ qs.flatMap render)).references <:+ qs) :
    ∃ free, IsFree free ∧ startsReference free (scan (w ++ qs.flatMap render)) = false := by
  induction hk : a.length using Nat.strongRecOn generalizing a lineStart before p with
  | _ k ih =>
    have hend : (a ++ w).getLast? = some '\n' := by rw [List.getLast?_append, hw, Option.some_or]
    have hno := (h qs (a ++ w) lineStart before p hqs hend hlen hsuffix).2
    by_cases hnil : a = []
    · subst hnil
      exact ⟨before, hb rfl, hno⟩
    · have hlast := ha.resolve_left hnil
      have hall : a ++ w ++ qs.flatMap render ≠ [] := by simp [hnil]
      obtain ⟨ss, ls, after, hphrase⟩ := exists_phrase lineStart before hall
      obtain ⟨hline, hreferences⟩ := hphrase.of_not_startsReference hno
      have hjoin := hphrase.join
      rw [List.append_assoc] at hjoin
      obtain ⟨v, rfl, rfl⟩ := Text.exists_of_append_eq hjoin hlast hline
      have hne := List.length_pos_iff.mpr hphrase.join_ne_nil
      have hv : v = [] → IsFree ((Stretch.join ss).getLast?.or before) := by
        rintro rfl
        rw [List.append_nil] at hlast
        rw [hlast]
        rfl
      have hvlast : v = [] ∨ v.getLast? = some '\n' :=
        (Classical.em (v = [])).imp id (Text.getLast?_of_append hlast)
      rw [hreferences p, ← List.append_assoc] at hsuffix
      simp only [List.length_append] at hlen hk
      exact ih v.length (by omega) hvlast (by simp only [List.length_append]; omega) hv hsuffix rfl

/-- Where a brace just closed, text that goes on to a place after white space on its line comes to
a reference there. -/
theorem Settles.not_startsReference_inline (h : Settles n) (hqs : ∀ q ∈ qs, q.IsWellFormed)
    {a z : Text} (hline : '\n' ∉ a) (hlast : a.getLast? = some ' ')
    (hz : ('@' :: z).getLast? = some '\n')
    (hlen : (a ++ '@' :: z ++ qs.flatMap render).length ≤ n) {before : Option Char} {p : Position}
    (hsuffix : (ahead .text false before p (a ++ '@' :: z ++ qs.flatMap render)).references <:+ qs)
    (hstart : startsReference (some ' ') (scan ('@' :: z ++ qs.flatMap render)) = true) : False := by
  have hend : (a ++ '@' :: z).getLast? = some '\n' := by rw [List.getLast?_append, hz, Option.some_or]
  have hno := (h qs (a ++ '@' :: z) false before p hqs hend hlen hsuffix).2
  have hne : a ++ '@' :: z ++ qs.flatMap render ≠ [] := by simp
  obtain ⟨ss, ls, after, hphrase⟩ := exists_phrase false before hne
  obtain ⟨-, hreferences⟩ := hphrase.of_not_startsReference hno
  generalize hall : a ++ '@' :: z ++ qs.flatMap render = rest at *
  have hjoin := hphrase.join
  have hsound (t : Text) : ∀ p ∈ scan t, p.Sound := fun p hp => Piece.sound_of_mem_scan hp
  cases hphrase with
  | reference _ _ hreference =>
    rw [hreference] at hno
    cases hno
  | @text _ _ _ text _ _ _ _ hsplit =>
    have hscan : scan rest = scan a ++ scan ('@' :: z ++ qs.flatMap render) := by
      rw [← hall, List.append_assoc, List.cons_append, Piece.scan_append_mark (by decide)]
    have hreach : startsReference ((Piece.join (scan a)).getLast?.or before)
        (scan ('@' :: z ++ qs.flatMap render)) = true := by
      rwa [Piece.join_scan, hlast, Option.some_or]
    have hwithin := splitText_append_of_startsReference (hsound a) hreach
    have hstops := splitText_stops before _ (hsound rest)
    rw [← hscan, hsplit, Piece.join_scan] at hwithin
    rw [hsplit] at hstops
    obtain ⟨t, rfl⟩ := hwithin
    have hafter : after = t ++ '@' :: z ++ qs.flatMap render := by
      rw [← hall] at hjoin
      simpa [Stretch.text] using hjoin
    have htext : Text.endsLine text = false := by
      rw [Text.endsLine]
      simp only [List.mem_append, not_or] at hline
      exact beq_false_of_ne fun heq => hline.1 (List.mem_of_getLast? heq)
    rw [htext] at hstops
    rcases hstops with hends | hnil | hreference
    · cases hends
    · rw [Piece.scan_eq_nil_iff.mp hnil] at hafter
      simp at hafter
    · have hrest : (t ++ '@' :: z).getLast? = some '\n' := by
        rw [List.getLast?_append, hz, Option.some_or]
      rw [hreferences p, hafter] at hsuffix
      rw [hafter] at hreference
      rw [← hall] at hlen
      simp only [List.length_append] at hlen
      have hstill := (h qs (t ++ '@' :: z) _ _ _ hqs hrest (by simp only [List.length_append]; omega)
        hsuffix).2
      simp only [Stretch.join_cons, Stretch.join_nil, Stretch.text, List.append_nil] at hstill
      rw [before_ahead, hreference] at hstill
      cases hstill

/-- The body of a written reference does not go on, past text that ends a line, with the reference
itself up to its target. -/
theorem Settles.not_continued (h : Settles n) (hqs : ∀ q ∈ qs, q.IsWellFormed) {q : FormReference}
    (hq : q.IsWellFormed) (hne : q.written ≠ []) {y m x : Text} (hy : y.getLast? = some '\n')
    (hm : '\n' ∉ m)
    (hinside : q.body = Text.trimStart y ++ '@' :: (q.written ++ '"' :: Text.trimEnd x))
    (hlen : (m ++ '{' :: (' ' :: q.body ++ [' ', '}', '\n']) ++ qs.flatMap render).length ≤ n)
    {before : Option Char} {p : Position}
    (hsuffix : (ahead .text false before p
      (m ++ '{' :: (' ' :: q.body ++ [' ', '}', '\n']) ++ qs.flatMap render)).references <:+ qs) :
    False := by
  have hstart {free : Option Char} (hfree : IsFree free) :
      startsReference free (scan ('@' :: (q.written ++ '"' :: (Text.trimEnd x ++ [' ', '}', '\n'])) ++
        qs.flatMap render)) = true := by
    rw [List.cons_append, List.append_assoc, List.cons_append]
    exact hq.startsReference_written hne hfree _
  have hend (w : Text) : ('@' :: (w ++ '"' :: (Text.trimEnd x ++ [' ', '}', '\n']))).getLast? =
      some '\n' :=
    List.getLast?_eq_some_iff.mpr ⟨'@' :: (w ++ '"' :: (Text.trimEnd x ++ [' ', '}'])), by simp⟩
  by_cases hnil : Text.trimStart y = []
  · have ht : m ++ '{' :: (' ' :: q.body ++ [' ', '}', '\n']) = m ++ ['{', ' '] ++
        '@' :: (q.written ++ '"' :: (Text.trimEnd x ++ [' ', '}', '\n'])) := by
      rw [hinside, hnil]
      simp
    rw [ht] at hlen hsuffix
    exact h.not_startsReference_inline hqs (by simp [hm]) (by simp) (hend _) hlen hsuffix
      (hstart rfl)
  · have ht : m ++ '{' :: (' ' :: q.body ++ [' ', '}', '\n']) =
        (m ++ ['{', ' '] ++ Text.trimStart y) ++
          '@' :: (q.written ++ '"' :: (Text.trimEnd x ++ [' ', '}', '\n'])) := by
      rw [hinside]
      simp
    have hline : (m ++ ['{', ' '] ++ Text.trimStart y).getLast? = some '\n' := by
      rw [List.getLast?_append, Text.getLast?_trimStart hnil, hy, Option.some_or]
    rw [ht] at hlen hsuffix
    obtain ⟨free, hfree, hno⟩ := h.not_startsReference_line hqs (Or.inr hline) (hend _) hlen
      (fun hempty => by simp at hempty) hsuffix
    rw [hstart hfree] at hno
    cases hno

/-- The body of a reference does not swallow a written reference up to a brace of its own and
come out as that reference. -/
theorem Settles.not_swallowed (h : Settles n) (hqs : ∀ q ∈ qs, q.IsWellFormed) {q : FormReference}
    (hq : q.IsWellFormed) {y s t : Text} (hy : y.getLast? = some '\n')
    (hrender : q.render = s ++ '}' :: t) (hbody : q.body = Text.trim (y ++ s))
    (hcloses : closesFrom 1 (y ++ s) = true) (hlen : (t ++ qs.flatMap render).length ≤ n)
    {before : Option Char} {p : Position}
    (hsuffix : (ahead .text false before p (t ++ qs.flatMap render)).references <:+ qs) : False := by
  have hclean : closesCleanly q.body = true := by rw [hbody, closesCleanly_trim]; exact hcloses
  have hink : (Text.ink q.body).length = (Text.ink y).length + (Text.ink s).length := by
    rw [hbody, Text.ink_trim, Text.ink_append, List.length_append]
  have hsplit := hrender
  rw [FormReference.render_eq, if_pos hclean] at hsplit
  rcases Text.append_cons_eq_append hsplit.symm with ⟨m, hlead, rfl⟩ | ⟨m, rfl, htail⟩
  · -- the brace stands in the target, and the body goes on with the reference itself
    obtain ⟨x, hs, hfound⟩ := hq.target_of_lead hlead
    have hat : Text.isSpace '@' = false := by decide
    have hquote : Text.isSpace '"' = false := by decide
    refine h.not_continued hqs hq hfound.2 hy hfound.1 (x := x) ?_ hlen hsuffix
    rw [hbody, hs, List.cons_append, Text.trim_append_cons hat, Text.trimEnd_append_cons hquote]
  · cases m with
    | nil => cases htail
    | cons c m =>
      obtain ⟨rfl, hinner⟩ := List.cons.inj htail
      rcases Text.append_cons_eq_append hinner.symm with ⟨rest, hinside, -⟩ | ⟨rest, rfl, -⟩
      · cases m with
        | nil => cases hinside
        | cons d m =>
          obtain ⟨rfl, hmore⟩ := List.cons.inj hinside
          have hbodies : q.body = m ++ '}' :: rest := hmore
          rw [← List.append_assoc] at hcloses
          obtain ⟨d, hd, hrest⟩ := closesFrom_suffix (Nat.le_refl 1) hcloses
          have hopen : closesFrom (1 + d) m = true := by
            rw [closesFrom, if_pos rfl, closesFrom, if_neg (by decide), if_neg (by decide)] at hrest
            rwa [Nat.add_comm]
          rw [closesCleanly, hbodies] at hclean
          have := eq_zero_of_closesFrom (Nat.le_refl 1) hopen hclean
          omega
      · -- the brace is the last one, and the body is inside itself
        have hbrace : (Text.ink ['{']).length = 1 := by decide
        rw [Text.ink_append, Text.ink_cons '{', Text.ink_append (' ' :: q.body),
          Text.ink_cons ' ' q.body] at hink
        simp only [List.length_append, hbrace] at hink
        omega

/-- A body that reaches into written references does not come out as one of them. -/
theorem Settles.not_eaten (h : Settles n) (hqs : ∀ q ∈ qs, q.IsWellFormed) {x : FormReference}
    {y v after : Text} (hy : y.getLast? = some '\n') (hv : v ++ '}' :: after = qs.flatMap render)
    (hbody : x.body = Text.trim (y ++ v)) (hcloses : closesFrom 1 (y ++ v) = true)
    (hlen : after.length ≤ n) {before : Option Char} {p : Position}
    (hsuffix : x :: (ahead .text false before p after).references <:+ qs) : False := by
  obtain ⟨pre, q, post, s, t, rfl, hrender, rfl, rfl⟩ := exists_of_flatMap_eq_append_cons hv
  have hpost : ∀ r ∈ post, r.IsWellFormed := fun r hr => hqs r (by simp [hr])
  have hrest : (ahead .text false before p (t ++ post.flatMap render)).references <:+
      pre ++ q :: post := (List.suffix_cons ..).trans hsuffix
  by_cases hshort : (ahead .text false before p (t ++ post.flatMap render)).references.length ≤
      post.length
  · have hless : (ahead .text false before p (t ++ post.flatMap render)).references <:+ post :=
      List.suffix_of_suffix_length_le hrest ((List.suffix_cons ..).trans (List.suffix_append ..)) hshort
    have hlast : t.getLast? = some '\n' := by
      have hend := q.getLast?_render
      rw [hrender, List.append_cons] at hend
      refine Text.getLast?_of_append hend ?_
      rintro rfl
      rw [List.append_nil, List.getLast?_concat] at hend
      cases hend
    obtain ⟨hsame, -⟩ := h post t false before p hpost hlast hlen hless
    rw [hsame] at hsuffix
    have heq : x :: post = q :: post :=
      (List.suffix_of_suffix_length_le hsuffix (List.suffix_append ..) (Nat.le_refl _)).eq_of_length rfl
    obtain ⟨rfl, -⟩ := List.cons.inj heq
    have hstart : (y ++ pre.flatMap render).getLast? = some '\n' := by
      rw [List.getLast?_append, hy]
      cases hpre : (pre.flatMap render).getLast? with
      | none => rfl
      | some c =>
        rcases List.eq_nil_or_concat pre with rfl | ⟨rs, r, rfl⟩
        · cases hpre
        · have hflat : (rs.concat r).flatMap render = rs.flatMap render ++ r.render := by simp
          rw [hflat, List.getLast?_append, r.getLast?_render, Option.some_or] at hpre
          rw [← hpre, Option.some_or]
    rw [← List.append_assoc] at hbody hcloses
    exact h.not_swallowed hpost (hqs x (by simp)) hstart hrender hbody hcloses hlen hless
  · have hmore : q :: post <:+ (ahead .text false before p (t ++ post.flatMap render)).references :=
      List.suffix_of_suffix_length_le (List.suffix_append ..) hrest (by simp; omega)
    obtain ⟨k, hk⟩ := hmore
    obtain ⟨j, hj⟩ := hsuffix
    rw [← hk, ← List.cons_append, ← List.append_assoc] at hj
    have hpre := List.append_cancel_right hj
    have hink := congrArg (fun b => (Text.ink b).length) hbody
    have hmost := x.length_ink_render
    simp only [Text.ink_trim, Text.ink_append, List.length_append, ← hpre, List.flatMap_append,
      List.flatMap_cons] at hink
    omega

/-- The references after a part of a text are settled if those of shorter texts are. -/
theorem references_past_of_settles (ih : ∀ m < n, Settles m) (hqs : ∀ q ∈ qs, q.IsWellFormed)
    {s v : Text} (hs : s ≠ []) (hv : (s ++ v).getLast? = some '\n')
    (hlen : (s ++ v ++ qs.flatMap render).length ≤ n) {ls : Bool} {before : Option Char}
    {p : Position}
    (hfewer : (ahead .text ls (s.getLast?.or before) p (v ++ qs.flatMap render)).references <:+ qs) :
    (ahead .text ls (s.getLast?.or before) p (v ++ qs.flatMap render)).references = qs := by
  have hpos := List.length_pos_iff.mpr hs
  simp only [List.length_append] at hlen
  by_cases hnil : v = []
  · subst hnil
    rw [List.append_nil] at hv
    have hfree : IsFree (s.getLast?.or before) := by
      rw [hv]
      rfl
    exact (ih (qs.flatMap render).length (by omega)).references_eq hqs (Nat.le_refl _) hfree ls _
      hfewer
  · exact (ih (v ++ qs.flatMap render).length (by simp only [List.length_append]; omega) qs v ls _ _
      hqs (Text.getLast?_of_append hv hnil) (Nat.le_refl _) hfewer).1

/-- Text that ends a line before written references gives no reference of its own unless others
are lost. -/
theorem settles (n : Nat) : Settles n := by
  induction n using Nat.strongRecOn with
  | _ n ih =>
    intro qs u lineStart before p hqs hu hlen hsuffix
    have hne : u ≠ [] := by
      rintro rfl
      cases hu
    have hall : u ++ qs.flatMap render ≠ [] := by simp [hne]
    obtain ⟨ss, ls, after, hphrase⟩ := exists_phrase lineStart before hall
    have hless := hphrase.length_lt
    have hjoin := hphrase.join
    cases hstart : startsReference before (scan (u ++ qs.flatMap render)) with
    | false =>
      obtain ⟨hline, hreferences⟩ := hphrase.of_not_startsReference hstart
      obtain ⟨v, rfl, rfl⟩ := Text.exists_of_append_eq hjoin hu hline
      rw [hreferences p] at hsuffix ⊢
      exact ⟨references_past_of_settles ih hqs hphrase.join_ne_nil hu hlen hsuffix, rfl⟩
    | true =>
      obtain ⟨rfl, x, hreferences, hlines⟩ := hphrase.of_startsReference hstart p
      rw [hreferences] at hsuffix
      have hrest := (List.suffix_cons ..).trans hsuffix
      exfalso
      have hwithin {v : Text} (hv : u = Stretch.join ss ++ v) (hva : after = v ++ qs.flatMap render) :
          False := by
        subst hv hva
        have hall := references_past_of_settles ih hqs hphrase.join_ne_nil hu hlen hrest
        have hlong := hsuffix.length_le
        rw [List.length_cons] at hlong
        have hlength := congrArg List.length hall
        simp only [past, place_ahead, before_ahead] at hlong hlength
        omega
      rcases hlines with hline | ⟨front, inner, hbody, hbraced, hfront, hcloses⟩
      · obtain ⟨v, hv, hva⟩ := Text.exists_of_append_eq hjoin hu
          fun hmem => hline (List.dropLast_subset _ hmem)
        exact hwithin hv hva
      · rw [hbraced] at hjoin
        have hopen : '\n' ∉ (front ++ ['{']).dropLast := by rwa [List.dropLast_concat]
        have hcut : (front ++ ['{']) ++ (inner ++ '}' :: after) = u ++ qs.flatMap render := by
          rw [← hjoin]
          simp
        obtain ⟨y, hy, hinner⟩ := Text.exists_of_append_eq hcut hu hopen
        rcases Text.append_cons_eq_append hinner with ⟨m, hm, hva⟩ | ⟨m, hm, hva⟩
        · refine hwithin (v := m) ?_ hva
          rw [hy, hm, hbraced]
          simp
        · -- the body reaches into the written references
          have hylast : y.getLast? = some '\n' := by
            rw [hy] at hu
            refine Text.getLast?_of_append hu ?_
            rintro rfl
            simp at hu
          have hbound : after.length < n := by omega
          rw [hm] at hbody hcloses
          exact (ih after.length hbound).not_eaten hqs hylast hva.symm hbody hcloses (Nat.le_refl _) hsuffix

/-- No reference begins in text before written references that are all a script gives. -/
theorem not_startsReference_of_references (hqs : ∀ q ∈ qs, q.IsWellFormed) {u : Text}
    (hu : u.getLast? = some '\n') {lineStart : Bool} {before : Option Char} {p : Position}
    (h : (ahead .text lineStart before p (u ++ qs.flatMap render)).references = qs) :
    startsReference before (scan (u ++ qs.flatMap render)) = false := by
  have hsuffix : (ahead .text lineStart before p (u ++ qs.flatMap render)).references <:+ qs :=
    ⟨[], h⟩
  exact (settles _ qs u lineStart before p hqs hu (Nat.le_refl _) hsuffix).2

end Lexer

end PromptScript
