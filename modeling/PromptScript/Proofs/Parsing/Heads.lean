import Mathlib.Data.List.Forall2
import PromptScript.Proofs.Parsing.Record

/-!
# The heads of references

A reference is recognised by its at sign, the name right after it and the target right after that.
The heads are read off the tokens alone; the items of a script have one reference for each head, in
the same order, and its tail is what comes after the head.
-/

namespace PromptScript

/-- The tokens by which a reference is recognised, and the tokens after them. -/
structure ReferenceHead where
  /-- The at sign. -/
  start : Token
  /-- The identifier that follows the at sign, if one does. -/
  name : Option Token
  /-- The target that follows, if one does. -/
  target : Option Token
  /-- The tokens after these. -/
  after : List Token

namespace ReferenceHead

/-- The head that begins with an at sign, by the tokens after it. -/
def ofTokens (start : Token) (rest : List Token) : ReferenceHead :=
  ⟨start, (Item.takeKind .identifier rest).1,
    (Item.takeKind .target (Item.takeKind .identifier rest).2).1,
    (Item.takeKind .target (Item.takeKind .identifier rest).2).2⟩

/-- The kind that a head names: its identifier, without the colons at its end if a target
follows. -/
def kind (head : ReferenceHead) : Text :=
  Item.kindOfTokens head.name head.target

end ReferenceHead

/-- The characters of a head. -/
def ReferenceHead.text (head : ReferenceHead) : Text :=
  Draft.textOf (head.start :: (head.name.toList ++ head.target.toList))

/-- The heads of the references among tokens. -/
def Token.referenceHeads : List Token → List ReferenceHead
  | [] => []
  | t :: rest =>
    if t.kind = .referenceStart then .ofTokens t rest :: referenceHeads rest
    else referenceHeads rest

/-- Whether a token is the at sign of a reference. -/
def Token.isReferenceStart (t : Token) : Bool :=
  t.kind == .referenceStart

/-- Each at sign of a reference begins one head, and no other token does. -/
theorem Token.map_start_referenceHeads (tokens : List Token) :
    (referenceHeads tokens).map ReferenceHead.start = tokens.filter isReferenceStart := by
  induction tokens with
  | nil => rfl
  | cons t tokens ih =>
    by_cases ht : t.kind = .referenceStart
    · have hstart : t.isReferenceStart = true := beq_iff_eq.mpr ht
      rw [referenceHeads, if_pos ht, List.map_cons, ih, List.filter_cons_of_pos hstart]
      rfl
    · have hstart : ¬t.isReferenceStart = true := fun h => ht (beq_iff_eq.mp h)
      rw [referenceHeads, if_neg ht, ih, List.filter_cons_of_neg hstart]

namespace Item

variable {item : Item} {items : List Item} {tokens rest : List Token}

/-- Tokens that are no at signs begin no references. -/
theorem referenceHeads_append {ts : List Token} (h : ∀ t ∈ ts, t.kind ≠ .referenceStart)
    (rest : List Token) : Token.referenceHeads (ts ++ rest) = Token.referenceHeads rest := by
  induction ts with
  | nil => rfl
  | cons t ts ih =>
    obtain ⟨ht, hts⟩ := List.forall_mem_cons.mp h
    rw [List.cons_append, Token.referenceHeads, if_neg ht, ih hts]

/-- A whole item that is no reference has no head. -/
theorem referenceHeads_of_not_isReference (hitem : item.IsWhole) (hne : item.isReference = false)
    (rest : List Token) :
    Token.referenceHeads (item.tokens ++ rest) = Token.referenceHeads rest := by
  have hinside {t : Token} (ht : t.kind ∉ leadKinds) : t.kind ≠ .referenceStart := fun hkind =>
    ht (by rw [hkind]; decide)
  refine referenceHeads_append ?_ rest
  cases item with
  | header t kind => simp [tokens, hitem.1]
  | statement keyword line =>
    refine List.forall_mem_cons.mpr ⟨by simp [hitem.1], fun t ht => hinside ?_⟩
    exact hitem.kind_not_mem t ht
  | text t =>
    have ht : t.kind = .text := hitem
    simp [tokens, ht]
  | reference => cases hne
  | stray => exact absurd hitem id

/-- A reference has one head, and its tail comes after the head. -/
theorem referenceHeads_reference {start : Token} {name target : Option Token} {tail : Tail}
    (hitem : (reference start name target tail).IsWhole)
    (hrest : ∀ x ∈ rest.head?, x.kind ∈ openingKinds) :
    Token.referenceHeads ((reference start name target tail).tokens ++ rest) =
      ⟨start, name, target, tail.tokens ++ rest⟩ :: Token.referenceHeads rest := by
  have hinside : ∀ t ∈ name.toList ++ (target.toList ++ tail.tokens), t.kind ≠ .referenceStart := by
    intro t ht hkind
    exact hitem.kind_not_mem t ht (by rw [hkind]; decide)
  obtain ⟨hstart, hname, htarget, htail⟩ := hitem
  have hhead : ReferenceHead.ofTokens start (name.toList ++ (target.toList ++ (tail.tokens ++ rest))) =
      ⟨start, name, target, tail.tokens ++ rest⟩ := by
    obtain ⟨htakeName, htakeTarget⟩ := takeKind_reference hname htarget (htail.head?_mem hrest)
    rw [ReferenceHead.ofTokens, htakeName, htakeTarget]
  simp only [tokens, List.cons_append, List.append_assoc, Token.referenceHeads, if_pos hstart, hhead]
  rw [← List.append_assoc, ← List.append_assoc, List.append_assoc name.toList,
    referenceHeads_append hinside]

/-- What the items of a script give for their references corresponds to the heads, if what each
reference gives among the items before it and those of the tokens after it corresponds to its head. -/
theorem Groups.forall₂_heads_between {α : Type} {R : ReferenceHead → α → Prop} (given : Item → List α)
    (h : Groups items tokens)
    (hother : ∀ item ∈ items, item.isReference = false → given item = [])
    (hreference : ∀ lead start name target tail rest,
      items = lead ++ reference start name target tail :: ofTokens rest →
      splitTail (tail.tokens ++ rest) = (tail, rest) → ∃ a, given (.reference start name target tail) = [a] ∧
        R ⟨start, name, target, tail.tokens ++ rest⟩ a) :
    List.Forall₂ R (Token.referenceHeads tokens) (items.flatMap given) := by
  induction h with
  | eof hlast => simp [Token.referenceHeads, hlast]
  | @cons item items rest hitem hstop hgroups ih =>
    have hrest := ih (fun i hi => hother i (List.mem_cons_of_mem _ hi))
      fun lead start name target tail rest heq =>
        hreference (item :: lead) start name target tail rest (by rw [heq, List.cons_append])
    rw [List.flatMap_cons]
    obtain ⟨x, more, rfl, hx⟩ := hgroups.exists_head
    have hopening : ∀ y ∈ (x :: more).head?, y.kind ∈ openingKinds := by
      rintro y ⟨⟩
      exact hx
    cases hkind : item.isReference with
    | false =>
      rw [hother item List.mem_cons_self hkind, referenceHeads_of_not_isReference hitem hkind]
      exact hrest
    | true =>
      cases item with
      | reference start name target tail =>
        have hsplit : splitTail (tail.tokens ++ x :: more) = (tail, x :: more) := by
          refine splitTail_tokens hitem.2.2.2 hopening ?_
          rintro mark recovered rfl
          exact hstop
        have hitems : reference start name target tail :: items =
            [] ++ reference start name target tail :: ofTokens (x :: more) := by
          rw [hgroups.ofTokens_eq, List.nil_append]
        obtain ⟨a, ha, hR⟩ := hreference [] start name target tail (x :: more) hitems hsplit
        rw [ha, referenceHeads_reference hitem hopening]
        exact .cons hR hrest
      | _ => cases hkind

/-- What the items of a script give for their references corresponds to the heads, if what each
reference gives corresponds to its head. -/
theorem Groups.forall₂_heads {α : Type} {R : ReferenceHead → α → Prop} (given : Item → List α)
    (h : Groups items tokens)
    (hother : ∀ item ∈ items, item.isReference = false → given item = [])
    (hreference : ∀ start name target tail rest, reference start name target tail ∈ items →
      splitTail (tail.tokens ++ rest) = (tail, rest) → ∃ a, given (.reference start name target tail) = [a] ∧
        R ⟨start, name, target, tail.tokens ++ rest⟩ a) :
    List.Forall₂ R (Token.referenceHeads tokens) (items.flatMap given) :=
  h.forall₂_heads_between given hother fun lead start name target tail rest heq =>
    hreference start name target tail rest (heq ▸ List.mem_append_right lead List.mem_cons_self)

end Item

end PromptScript
