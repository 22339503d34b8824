import PromptScript.Form.Render
import PromptScript.Proofs.Lexing.Cut
import PromptScript.Proofs.Text.Trim

/-!
# Braces

A body ends at the brace that closes the one in front of it. Cutting a text there, brace by brace,
is the same as asking that no part of the body from its start on closes more braces than it opens
and that the whole body closes as many. A brace lies inside another one where the text before it
opens more braces than it closes.
-/

namespace PromptScript

/-- Text without braces in front makes no difference to what is closed. -/
theorem closesFrom_append_left {a : Text} (hleft : '{' ∉ a) (hright : '}' ∉ a) (depth : Nat)
    (t : Text) : closesFrom depth (a ++ t) = closesFrom depth t := by
  induction a with
  | nil => rfl
  | cons c a ih =>
    have hl := (List.ne_of_not_mem_cons hleft).symm
    have hr := (List.ne_of_not_mem_cons hright).symm
    rw [List.cons_append, closesFrom, if_neg hl, if_neg hr,
      ih (List.not_mem_of_not_mem_cons hleft) (List.not_mem_of_not_mem_cons hright)]

/-- Text without braces behind makes no difference to what is closed. -/
theorem closesFrom_append_right {b : Text} (hleft : '{' ∉ b) (hright : '}' ∉ b) (depth : Nat)
    (t : Text) : closesFrom depth (t ++ b) = closesFrom depth t := by
  induction t generalizing depth with
  | nil =>
    have hnil := closesFrom_append_left hleft hright depth []
    rwa [List.append_nil] at hnil
  | cons c t ih => simp only [List.cons_append, closesFrom, ih]

/-- White space around a body makes no difference to how it closes its braces. -/
theorem closesCleanly_trim (t : Text) : closesCleanly (Text.trim t) = closesCleanly t := by
  obtain ⟨a, b, ha, hb, heq⟩ := Text.exists_trim t
  have hsplit : closesCleanly t = closesFrom 1 (a ++ Text.trim t ++ b) := congrArg (closesFrom 1) heq
  rw [hsplit, closesFrom_append_right (Text.not_mem_of_isBlank hb rfl) (Text.not_mem_of_isBlank hb rfl),
    closesFrom_append_left (Text.not_mem_of_isBlank ha rfl) (Text.not_mem_of_isBlank ha rfl),
    closesCleanly]

/-- A body that closes its braces ends at the brace that is written after it. -/
theorem cutClosing?_of_closesFrom {depth : Nat} {t : Text} (h : closesFrom depth t = true)
    (rest : Text) : Text.cutClosing? depth (t ++ '}' :: rest) = some (t, rest) := by
  induction t generalizing depth with
  | nil =>
    have hdepth : depth = 1 := by simpa [closesFrom] using h
    rw [hdepth]
    rfl
  | cons c t ih =>
    rw [closesFrom] at h
    rw [List.cons_append, Text.cutClosing?]
    split at h
    · rename_i hc
      rw [if_pos hc, ih h]
      rfl
    · rename_i hleft
      rw [if_neg hleft]
      split at h
      · rename_i hc
        obtain ⟨hdepth, h⟩ := Bool.and_eq_true_iff.mp h
        have hopen : ¬depth ≤ 1 := Nat.not_le.mpr (of_decide_eq_true hdepth)
        rw [if_pos hc, if_neg hopen, ih h]
        rfl
      · rename_i hright
        rw [if_neg hright, ih h]
        rfl

/-- What the lexer takes as a body closes its braces. -/
theorem closesFrom_of_cutClosing? {depth : Nat} {t inner rest : Text} (hdepth : 1 ≤ depth)
    (h : Text.cutClosing? depth t = some (inner, rest)) : closesFrom depth inner = true := by
  induction t generalizing depth inner with
  | nil => cases h
  | cons c t ih =>
    rw [Text.cutClosing?] at h
    split at h
    · rename_i hc
      obtain ⟨parts, hparts, heq⟩ := Option.map_eq_some_iff.mp h
      cases heq
      rw [closesFrom, if_pos hc, ih (by omega) hparts]
    · rename_i hleft
      split at h
      · rename_i hc
        split at h
        · cases h
          simp [closesFrom]
          omega
        · rename_i hopen
          obtain ⟨parts, hparts, heq⟩ := Option.map_eq_some_iff.mp h
          cases heq
          rw [closesFrom, if_neg hleft, if_pos hc, ih (by omega) hparts]
          simp
          omega
      · rename_i hright
        obtain ⟨parts, hparts, heq⟩ := Option.map_eq_some_iff.mp h
        cases heq
        rw [closesFrom, if_neg hleft, if_neg hright, ih hdepth hparts]

namespace Text

/-- Whether a text closes the braces that it opens and no others: nowhere are more closed than
opened, and in the end as many. -/
def IsBalanced (t : Text) : Prop :=
  t.count '}' = t.count '{' ∧ ∀ p, p <+: t → p.count '}' ≤ p.count '{'

/-- Whether a text, past an opening brace, is a body, the brace that closes that one, and the text
after it. -/
def Encloses (inside body after : Text) : Prop :=
  inside = body ++ '}' :: after ∧ body.IsBalanced

/-- Whether the first brace of a text that opens inside another one comes after a part of it. -/
def IsFirstNested (t lead : Text) : Prop :=
  (∃ rest, t = lead ++ '{' :: rest ∧ lead.count '}' < lead.count '{') ∧
    ∀ other rest, t = other ++ '{' :: rest → other.count '}' < other.count '{' →
      lead.length ≤ other.length

end Text

/-- The parts of a text from its start on are the empty one, and its first character with those of
the others. -/
theorem forall_prefix_cons {P : Text → Prop} {c : Char} {t : Text} :
    (∀ p, p <+: c :: t → P p) ↔ P [] ∧ ∀ p, p <+: t → P (c :: p) := by
  constructor
  · intro h
    exact ⟨h [] List.nil_prefix, fun p hp => h (c :: p) (List.cons_prefix_cons.mpr ⟨rfl, hp⟩)⟩
  · rintro ⟨hnil, hcons⟩ p hp
    rcases List.prefix_cons_iff.mp hp with rfl | ⟨q, rfl, hq⟩
    · exact hnil
    · exact hcons q hq

/-- Inside so many braces a text closes all but one if it does so by count. -/
theorem closesFrom_iff {depth : Nat} (hdepth : 1 ≤ depth) (t : Text) :
    closesFrom depth t = true ↔ t.count '}' + 1 = depth + t.count '{' ∧
      ∀ p, p <+: t → p.count '}' < depth + p.count '{' := by
  induction t generalizing depth with
  | nil =>
    simp only [closesFrom, beq_iff_eq, List.prefix_nil, forall_eq, List.count_nil]
    omega
  | cons c t ih =>
    rw [closesFrom, forall_prefix_cons]
    by_cases hleft : c = '{'
    · subst hleft
      have hopens (p : Text) : ('{' :: p).count '{' = p.count '{' + 1 := List.count_cons_self
      have hcloses (p : Text) : ('{' :: p).count '}' = p.count '}' :=
        List.count_cons_of_ne (by decide)
      rw [if_pos rfl, ih (by omega)]
      simp only [hopens, hcloses, List.count_nil]
      constructor
      · rintro ⟨h, hp⟩
        exact ⟨by omega, by omega, fun p hpre => by have := hp p hpre; omega⟩
      · rintro ⟨h, -, hp⟩
        exact ⟨by omega, fun p hpre => by have := hp p hpre; omega⟩
    · rw [if_neg hleft]
      by_cases hright : c = '}'
      · subst hright
        have hopens (p : Text) : ('}' :: p).count '{' = p.count '{' :=
          List.count_cons_of_ne (by decide)
        have hcloses (p : Text) : ('}' :: p).count '}' = p.count '}' + 1 := List.count_cons_self
        rw [if_pos rfl, Bool.and_eq_true, decide_eq_true_iff]
        simp only [hopens, hcloses, List.count_nil]
        constructor
        · rintro ⟨hdeep, hrest⟩
          obtain ⟨h, hp⟩ := (ih (by omega)).mp hrest
          exact ⟨by omega, by omega, fun p hpre => by have := hp p hpre; omega⟩
        · rintro ⟨h, -, hp⟩
          have hfirst := hp [] List.nil_prefix
          simp only [List.count_nil] at hfirst
          exact ⟨by omega, (ih (by omega)).mpr
            ⟨by omega, fun p hpre => by have := hp p hpre; omega⟩⟩
      · have hopens (p : Text) : (c :: p).count '{' = p.count '{' := List.count_cons_of_ne hleft
        have hcloses (p : Text) : (c :: p).count '}' = p.count '}' := List.count_cons_of_ne hright
        rw [if_neg hright, ih hdepth]
        simp only [hopens, hcloses, List.count_nil]
        constructor
        · rintro ⟨h, hp⟩
          exact ⟨h, by omega, hp⟩
        · rintro ⟨h, -, hp⟩
          exact ⟨h, hp⟩

/-- Inside one brace, what closes all but that one is balanced. -/
theorem closesFrom_one_iff (t : Text) : closesFrom 1 t = true ↔ t.IsBalanced := by
  rw [closesFrom_iff (Nat.le_refl 1)]
  constructor
  · rintro ⟨h, hp⟩
    exact ⟨by omega, fun p hpre => by have := hp p hpre; omega⟩
  · rintro ⟨h, hp⟩
    exact ⟨by omega, fun p hpre => by have := hp p hpre; omega⟩

namespace Text

/-- What is cut, the closing brace and the text after it make up the text. -/
theorem cutClosing?_join {depth : Nat} {t body after : Text}
    (h : cutClosing? depth t = some (body, after)) : t = body ++ '}' :: after := by
  induction t generalizing depth body with
  | nil => cases h
  | cons c t ih =>
    have step {d : Nat} (h : (cutClosing? d t).map (fun parts => (c :: parts.1, parts.2)) =
        some (body, after)) : c :: t = body ++ '}' :: after := by
      obtain ⟨parts, hparts, heq⟩ := Option.map_eq_some_iff.mp h
      cases heq
      rw [List.cons_append, ← ih hparts]
    rw [cutClosing?] at h
    split at h
    · exact step h
    · split at h
      · rename_i hc
        split at h
        · cases h
          rw [hc]
          rfl
        · exact step h
      · exact step h

/-- A body is cut at the brace that closes the one in front of it. -/
theorem cutClosing?_eq_some_iff {inside body after : Text} :
    cutClosing? 1 inside = some (body, after) ↔ inside.Encloses body after := by
  constructor
  · intro h
    exact ⟨cutClosing?_join h,
      (closesFrom_one_iff body).mp (closesFrom_of_cutClosing? (Nat.le_refl 1) h)⟩
  · rintro ⟨rfl, hbalanced⟩
    exact cutClosing?_of_closesFrom ((closesFrom_one_iff body).mpr hbalanced) after

/-- The part of a text inside so many braces before the first brace that opens inside another one
of the text. -/
def firstNested? (depth : Nat) : Text → Option Text
  | [] => none
  | c :: rest =>
    if c = '{' then
      if 2 ≤ depth then some [] else (firstNested? (depth + 1) rest).map (c :: ·)
    else if c = '}' then (firstNested? (depth - 1) rest).map (c :: ·)
    else (firstNested? depth rest).map (c :: ·)

/-- Whether a brace that opens after a part of a text lies inside another brace of the text, where
the text itself is inside so many braces. -/
def NestsAfter (depth : Nat) (lead : Text) : Prop :=
  lead.count '}' + 2 ≤ depth + lead.count '{'

/-- Whether a part of a text is the one before the first brace that opens inside another one of the
text, where the text itself is inside so many braces. -/
def IsFirstNestedFrom (depth : Nat) (t lead : Text) : Prop :=
  (∃ rest, t = lead ++ '{' :: rest ∧ NestsAfter depth lead) ∧
    ∀ other rest, t = other ++ '{' :: rest → NestsAfter depth other → lead.length ≤ other.length

/-- Inside one brace, the first that opens inside another one is the first of the text. -/
theorem isFirstNestedFrom_one_iff {t lead : Text} :
    IsFirstNestedFrom 1 t lead ↔ t.IsFirstNested lead := by
  have hcount (p : Text) : NestsAfter 1 p ↔ p.count '}' < p.count '{' := by
    rw [NestsAfter]
    omega
  simp only [IsFirstNestedFrom, IsFirstNested, hcount]

/-- Past a character that is no such brace, the first one of a text is that of the others. -/
theorem isFirstNestedFrom_cons {depth d : Nat} {c : Char} {t lead : Text}
    (hshift : ∀ p, NestsAfter depth (c :: p) ↔ NestsAfter d p)
    (hfirst : ¬(c = '{' ∧ NestsAfter depth [])) :
    IsFirstNestedFrom depth (c :: t) lead ↔ ∃ p, IsFirstNestedFrom d t p ∧ c :: p = lead := by
  constructor
  · rintro ⟨⟨rest, heq, hnests⟩, hmin⟩
    cases lead with
    | nil => exact absurd ⟨(List.cons.inj heq).1, hnests⟩ hfirst
    | cons x p =>
      obtain ⟨rfl, ht⟩ := List.cons.inj heq
      refine ⟨p, ⟨⟨rest, ht, (hshift p).mp hnests⟩, fun other more hother hnests => ?_⟩, rfl⟩
      have hlength := hmin (c :: other) more (by rw [hother]; rfl) ((hshift other).mpr hnests)
      exact Nat.le_of_succ_le_succ hlength
  · rintro ⟨p, ⟨⟨rest, rfl, hnests⟩, hmin⟩, rfl⟩
    refine ⟨⟨rest, rfl, (hshift p).mpr hnests⟩, fun other more hother hnests => ?_⟩
    cases other with
    | nil => exact absurd ⟨(List.cons.inj hother).1, hnests⟩ hfirst
    | cons x q =>
      obtain ⟨rfl, ht⟩ := List.cons.inj hother
      exact Nat.succ_le_succ (hmin q more ht ((hshift q).mp hnests))

/-- The first brace inside another one is found by counting the braces that are open. -/
theorem firstNested?_eq_some_iff {depth : Nat} (hdepth : 1 ≤ depth) {t lead : Text}
    (h : closesFrom depth t = true) :
    firstNested? depth t = some lead ↔ IsFirstNestedFrom depth t lead := by
  induction t generalizing depth lead with
  | nil => simp [firstNested?, IsFirstNestedFrom]
  | cons c t ih =>
    have step {d : Nat} (hd : 1 ≤ d) (hrest : closesFrom d t = true)
        (hshift : ∀ p, NestsAfter depth (c :: p) ↔ NestsAfter d p)
        (hfirst : ¬(c = '{' ∧ NestsAfter depth [])) :
        (firstNested? d t).map (c :: ·) = some lead ↔ IsFirstNestedFrom depth (c :: t) lead := by
      rw [isFirstNestedFrom_cons hshift hfirst, Option.map_eq_some_iff]
      simp only [ih hd hrest]
    rw [closesFrom] at h
    rw [firstNested?]
    by_cases hleft : c = '{'
    · subst hleft
      rw [if_pos rfl] at h ⊢
      by_cases hdeep : 2 ≤ depth
      · rw [if_pos hdeep]
        have hnests : NestsAfter depth [] := by simpa [NestsAfter] using hdeep
        constructor
        · rintro ⟨⟩
          exact ⟨⟨t, rfl, hnests⟩, fun _ _ _ _ => Nat.zero_le _⟩
        · rintro ⟨-, hmin⟩
          have hlength := hmin [] t rfl hnests
          rw [List.eq_nil_of_length_eq_zero (Nat.le_zero.mp hlength)]
      · rw [if_neg hdeep]
        refine step (by omega) h (fun p => ?_) ?_
        · rw [NestsAfter, NestsAfter, List.count_cons_self, List.count_cons_of_ne (by decide)]
          omega
        · simpa [NestsAfter] using hdeep
    · rw [if_neg hleft] at h ⊢
      have hfirst : ¬(c = '{' ∧ NestsAfter depth []) := fun hc => hleft hc.1
      by_cases hright : c = '}'
      · subst hright
        rw [if_pos rfl] at h ⊢
        obtain ⟨hdeep, hrest⟩ := Bool.and_eq_true_iff.mp h
        have hdeep' : 2 ≤ depth := of_decide_eq_true hdeep
        refine step (by omega) hrest (fun p => ?_) hfirst
        rw [NestsAfter, NestsAfter, List.count_cons_self, List.count_cons_of_ne (by decide)]
        omega
      · rw [if_neg hright] at h ⊢
        refine step hdepth h (fun p => ?_) hfirst
        rw [NestsAfter, NestsAfter, List.count_cons_of_ne hleft, List.count_cons_of_ne hright]

/-- In a balanced body, the first brace inside another one is found by counting. -/
theorem firstNested?_one_iff {t lead : Text} (h : t.IsBalanced) :
    firstNested? 1 t = some lead ↔ t.IsFirstNested lead := by
  rw [firstNested?_eq_some_iff (Nat.le_refl 1) ((closesFrom_one_iff t).mpr h),
    isFirstNestedFrom_one_iff]

end Text

end PromptScript
