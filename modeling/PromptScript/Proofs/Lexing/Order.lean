import PromptScript.Proofs.Lexing.Tiling

/-!
# Tokens stand one after another

The tokens of a script stand one after another: each ends no later than the next begins, and but for
the end of the script each has characters, so their places strictly increase. A span that begins at
the first of some tokens still begins there when it is extended to the others.
-/

namespace PromptScript

namespace Position

/-- Line by line, and within a line column by column, without the place itself. -/
def lt (p q : Position) : Prop :=
  p.line < q.line ∨ p.line = q.line ∧ p.column < q.column

instance : LT Position := ⟨lt⟩

/-- Places are compared line by line, and within a line column by column. -/
theorem lt_iff {p q : Position} :
    p < q ↔ p.line < q.line ∨ p.line = q.line ∧ p.column < q.column :=
  Iff.rfl

/-- A place on a later line is later whatever its column. -/
theorem le_iff {p q : Position} :
    p ≤ q ↔ p.line < q.line ∨ p.line = q.line ∧ p.column ≤ q.column :=
  Iff.rfl

/-- A place is no later than itself. -/
theorem le_refl (p : Position) : p ≤ p :=
  Or.inr ⟨rfl, Nat.le_refl _⟩

/-- The order of places is transitive. -/
theorem le_trans {p q r : Position} (hpq : p ≤ q) (hqr : q ≤ r) : p ≤ r := by
  rw [le_iff] at hpq hqr ⊢
  omega

/-- What comes before another place is no later than it. -/
theorem le_of_lt {p q : Position} (h : p < q) : p ≤ q := by
  rw [lt_iff] at h
  rw [le_iff]
  omega

/-- What comes before a place comes before those that are no earlier. -/
theorem lt_of_lt_of_le {p q r : Position} (hpq : p < q) (hqr : q ≤ r) : p < r := by
  rw [lt_iff] at hpq ⊢
  rw [le_iff] at hqr
  omega

/-- No place comes before itself. -/
theorem ne_of_lt {p q : Position} (h : p < q) : p ≠ q := by
  rintro rfl
  rw [lt_iff] at h
  omega

/-- The later of two places comes no earlier than the first of them. -/
theorem le_later_left (p q : Position) : p ≤ p.later q := by
  unfold later
  split
  · assumption
  · exact le_refl p

/-- The later of two places comes no later than a place that neither goes past. -/
theorem later_le {p q r : Position} (hp : p ≤ r) (hq : q ≤ r) : p.later q ≤ r := by
  unfold later
  split <;> assumption

/-- The place past a character comes later. -/
theorem lt_next (p : Position) (c : Char) : p < p.next c := by
  rw [lt_iff, next]
  split
  · exact Or.inl (Nat.lt_succ_self _)
  · exact Or.inr ⟨rfl, Nat.lt_succ_self _⟩

/-- The place past a text comes no earlier. -/
theorem le_advance (p : Position) (t : Text) : p ≤ p.advance t := by
  induction t generalizing p with
  | nil => exact le_refl p
  | cons c t ih => exact le_of_lt (lt_of_lt_of_le (lt_next p c) (ih (p.next c)))

/-- The place past a text that is not empty comes later. -/
theorem lt_advance (p : Position) {t : Text} (h : t ≠ []) : p < p.advance t := by
  cases t with
  | nil => exact absurd rfl h
  | cons c t => exact lt_of_lt_of_le (lt_next p c) (le_advance (p.next c) t)

end Position

namespace Span

/-- A span keeps its start when it is merged with one that begins no earlier. -/
theorem start_merge {a b : Span} (h : a.start ≤ b.start) : (a.merge b).start = a.start := by
  rw [merge, Position.earlier, if_pos h]

end Span

namespace Stretch

/-- Each of the tokens of stretches ends no later than the next begins, and all of them take up
parts of what the stretches do. -/
theorem pairwise_spans (p : Position) (ss : List Stretch) :
    (tokens p ss).Pairwise (fun a b => a.span.stop ≤ b.place) ∧
      ∀ t ∈ tokens p ss, p ≤ t.place ∧ t.span.stop ≤ p.advance (join ss) := by
  induction ss generalizing p with
  | nil => exact ⟨.nil, by simp [tokens]⟩
  | cons s ss ih =>
    obtain ⟨hpairs, hplaces⟩ := ih (p.advance s.text)
    rw [← Position.advance_append, ← join_cons] at hplaces
    have hother : ∀ t ∈ tokens (p.advance s.text) ss,
        p ≤ t.place ∧ t.span.stop ≤ p.advance (join (s :: ss)) := fun t ht =>
      ⟨Position.le_trans (p.le_advance s.text) (hplaces t ht).1, (hplaces t ht).2⟩
    cases s with
    | comment => exact ⟨hpairs, hother⟩
    | gap => exact ⟨hpairs, hother⟩
    | token kind text =>
      refine ⟨.cons (fun t ht => (hplaces t ht).1) hpairs,
        List.forall_mem_cons.mpr ⟨⟨Position.le_refl p, ?_⟩, hother⟩⟩
      rw [join_cons, Position.advance_append]
      exact Position.le_advance _ _

/-- The tokens of stretches stand one after another, from the place of the first stretch on and
before the place past the last. -/
theorem pairwise_tokens (p : Position) {ss : List Stretch}
    (hne : ∀ kind text, .token kind text ∈ ss → text ≠ []) :
    (tokens p ss).Pairwise (fun a b => a.place < b.place) ∧
      ∀ t ∈ tokens p ss, p ≤ t.place ∧ t.place < p.advance (join ss) := by
  obtain ⟨hpairs, hplaces⟩ := pairwise_spans p ss
  have hstep : ∀ t ∈ tokens p ss, t.place < t.span.stop := fun t ht =>
    t.place.lt_advance (hne _ _ (mem_of_mem_tokens ht))
  refine ⟨hpairs.imp_of_mem fun ha _ hle => Position.lt_of_lt_of_le (hstep _ ha) hle,
    fun t ht => ?_⟩
  exact ⟨(hplaces t ht).1, Position.lt_of_lt_of_le (hstep t ht) (hplaces t ht).2⟩

end Stretch

/-- The tokens of a script stand one after another. -/
theorem Token.pairwise_ofText (source : Text) :
    (Token.ofText source).Pairwise fun a b => a.place < b.place := by
  obtain ⟨ss, h⟩ := Lexer.exists_phrases true none source
  have hfit : Stretch.FitAll [] ss [] := h.fitAll fun _ _ => Or.inl rfl
  have hne : ∀ kind text, .token kind text ∈ ss → text ≠ [] := by
    intro kind text hmem
    obtain ⟨pre, post, hss⟩ := List.append_of_mem hmem
    exact (hfit.fits pre _ post hss).2
  obtain ⟨hpairs, hplaces⟩ := Stretch.pairwise_tokens .start hne
  have htokens : Token.ofText source = _ := h.tokens .start
  rw [htokens]
  refine List.pairwise_append.mpr ⟨hpairs, List.pairwise_singleton _ _, fun t ht last hlast => ?_⟩
  rw [List.mem_singleton.mp hlast, ← h.join]
  exact (hplaces t ht).2

/-- Each token of a script ends no later than the next begins. -/
theorem Token.pairwise_span_ofText (source : Text) :
    (Token.ofText source).Pairwise fun a b => a.span.stop ≤ b.place := by
  obtain ⟨ss, h⟩ := Lexer.exists_phrases true none source
  obtain ⟨hpairs, hplaces⟩ := Stretch.pairwise_spans .start ss
  have htokens : Token.ofText source = _ := h.tokens .start
  rw [htokens]
  refine List.pairwise_append.mpr ⟨hpairs, List.pairwise_singleton _ _, fun t ht last hlast => ?_⟩
  rw [List.mem_singleton.mp hlast, ← h.join]
  exact (hplaces t ht).2

/-- Of tokens that stand one after another, only one stands at a place. -/
theorem Token.eq_of_place_eq {tokens : List Token}
    (h : tokens.Pairwise fun a b => a.place < b.place) {t u : Token} (ht : t ∈ tokens)
    (hu : u ∈ tokens) (hplace : t.place = u.place) : t = u := by
  induction h with
  | nil => cases ht
  | cons hfirst _ ih =>
    rcases List.mem_cons.mp ht with rfl | htRest
    · rcases List.mem_cons.mp hu with rfl | huRest
      · rfl
      · exact absurd hplace (Position.ne_of_lt (hfirst u huRest))
    · rcases List.mem_cons.mp hu with rfl | huRest
      · exact absurd hplace.symm (Position.ne_of_lt (hfirst t htRest))
      · exact ih htRest huRest

end PromptScript
