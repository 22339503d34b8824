import Mathlib.Data.List.Forall2
import PromptScript.Proofs.Json.Scalars

/-!
# Reading printed values

The reader takes a printed value whole, and what it finds is the value with its members sorted. It
is so for the compact form and for the indented one, if the numbers of the value are integers of 64
bits and it is not nested too deeply. The reader's steps are bounded by twice the length of a text;
the lemmas on arrays and objects show that this bound is passed on to their parts.
-/

namespace PromptScript.Json

/-- Whether a text is white space between the parts of a JSON text. -/
def IsGap (t : Text) : Prop :=
  ∀ c ∈ t, isGap c = true

/-- Nothing is white space too. -/
theorem isGap_nil : IsGap [] := by
  simp [IsGap]

/-- White space in front of a text is skipped with what else is skipped there. -/
theorem skipGap_append {gap : Text} (h : IsGap gap) (t : Text) : skipGap (gap ++ t) = skipGap t :=
  List.dropWhile_append_of_pos h

/-- Nothing is skipped in front of a character that is no white space. -/
theorem skipGap_cons {c : Char} (h : isGap c = false) (t : Text) : skipGap (c :: t) = c :: t := by
  rw [skipGap, List.dropWhile_cons_of_neg (by simp [h])]

/-- White space is skipped at once. -/
@[simp] theorem skipGap_skipGap (t : Text) : skipGap (skipGap t) = skipGap t := by
  induction t with
  | nil => rfl
  | cons c t ih =>
    by_cases hc : isGap c = true
    · have hskip : skipGap (c :: t) = skipGap t := List.dropWhile_cons_of_pos hc
      rw [hskip, ih]
    · have hcons := skipGap_cons (by simpa using hc) t
      rw [hcons, hcons]

section

attribute [local simp] readValue? readItems? readMembers?

/-- A value is read after the white space in front of it. -/
theorem readValue?_skipGap (fuel : Nat) (t : Text) :
    readValue? fuel (skipGap t) = readValue? fuel t := by
  cases fuel with
  | zero => rfl
  | succ fuel => simp

/-- Items are read after the white space in front of them. -/
theorem readItems?_skipGap (fuel : Nat) (t : Text) :
    readItems? fuel (skipGap t) = readItems? fuel t := by
  cases fuel with
  | zero => rfl
  | succ fuel => simp [readValue?_skipGap]

/-- No item begins with the bracket that closes an array. -/
theorem readItems?_close (fuel : Nat) (t : Text) : readItems? fuel (']' :: t) = none := by
  cases fuel with
  | zero => rfl
  | succ fuel => cases fuel <;> rfl

/-- Members are read after the white space in front of them. -/
theorem readMembers?_skipGap (fuel : Nat) (t : Text) :
    readMembers? fuel (skipGap t) = readMembers? fuel t := by
  cases fuel with
  | zero => rfl
  | succ fuel => simp

/-- No member begins with the brace that closes an object. -/
theorem readMembers?_close (fuel : Nat) (t : Text) : readMembers? fuel ('}' :: t) = none := by
  cases fuel <;> rfl

end

/-- A quoted text is its quotes with the escaped text between them. -/
theorem quote_append (t rest : Text) :
    quote t ++ rest = '"' :: (t.flatMap escape ++ '"' :: rest) := by
  simp [quote]

section

variable {fuel : Nat} {t after : Text}

/-- A bracket begins an array: an empty one, or one of the items that follow. -/
theorem readValue?_bracket (fuel : Nat) (t : Text) :
    readValue? (fuel + 1) ('[' :: t) =
      match skipGap t with
      | ']' :: after => some (.array [], after)
      | items => (readItems? fuel items).map fun parts => (.array parts.1, parts.2) := by
  rw [readValue?, skipGap_cons (by decide)]
  rfl

/-- A brace begins an object: an empty one, or one of the members that follow. -/
theorem readValue?_brace (fuel : Nat) (t : Text) :
    readValue? (fuel + 1) ('{' :: t) =
      match skipGap t with
      | '}' :: after => some (.object [], after)
      | members => (readMembers? fuel members).map fun parts => (.object parts.1, parts.2) := by
  rw [readValue?, skipGap_cons (by decide)]
  rfl

/-- An array ends at once if its closing bracket is next. -/
theorem readValue?_emptyArray (h : skipGap t = ']' :: after) :
    readValue? (fuel + 1) ('[' :: t) = some (.array [], after) := by
  simp only [readValue?_bracket, h]

/-- An object ends at once if its closing brace is next. -/
theorem readValue?_emptyObject (h : skipGap t = '}' :: after) :
    readValue? (fuel + 1) ('{' :: t) = some (.object [], after) := by
  simp only [readValue?_brace, h]

/-- An array has the items that are read after its bracket. -/
theorem readValue?_array {trees : List Tree} (h : readItems? fuel t = some (trees, after)) :
    readValue? (fuel + 1) ('[' :: t) = some (.array trees, after) := by
  rw [← readItems?_skipGap] at h
  rw [readValue?_bracket]
  split
  · rename_i hclose
    rw [hclose, readItems?_close] at h
    cases h
  · rw [h]
    rfl

/-- An object has the members that are read after its brace. -/
theorem readValue?_object {members : List (Text × Tree)}
    (h : readMembers? fuel t = some (members, after)) :
    readValue? (fuel + 1) ('{' :: t) = some (.object members, after) := by
  rw [← readMembers?_skipGap] at h
  rw [readValue?_brace]
  split
  · rename_i hclose
    rw [hclose, readMembers?_close] at h
    cases h
  · rw [h]
    rfl

section

variable {lead : Text} (hlead : IsGap lead) (name value : Text) {tree : Tree}
  (h : readValue? fuel value = some (tree, after))

include hlead h

/-- The last member, with its name in quotes. -/
theorem readMembers?_last {rest : Text} (hend : skipGap after = '}' :: rest) :
    readMembers? (fuel + 1) (lead ++ quote name ++ ':' :: value) =
      some ([(name.flatMap escape, tree)], rest) := by
  rw [List.append_assoc, quote_append, ← readMembers?_skipGap, skipGap_append hlead,
    readMembers?_skipGap, readMembers?, skipGap_cons (by decide)]
  simp only [readEscaped?_escape, Option.bind_eq_bind, Option.bind_some,
    skipGap_cons (show isGap ':' = false by decide), h, hend]

/-- A member with its name in quotes before others. -/
theorem readMembers?_more {rest final : Text} (hmark : skipGap after = ',' :: rest)
    {members : List (Text × Tree)} (hmore : readMembers? fuel rest = some (members, final)) :
    readMembers? (fuel + 1) (lead ++ quote name ++ ':' :: value) =
      some ((name.flatMap escape, tree) :: members, final) := by
  rw [List.append_assoc, quote_append, ← readMembers?_skipGap, skipGap_append hlead,
    readMembers?_skipGap, readMembers?, skipGap_cons (by decide)]
  simp only [readEscaped?_escape, Option.bind_eq_bind, Option.bind_some,
    skipGap_cons (show isGap ':' = false by decide), h, hmark, hmore, Option.map_some]

end

/-- A string has what is read up to its closing quote. -/
theorem readValue?_string {written : Text} (h : readEscaped? t = some (written, after)) :
    readValue? (fuel + 1) ('"' :: t) = some (.string written, after) := by
  rw [readValue?, skipGap_cons (by decide)]
  simp only [h, Option.map_some]

/-- A sign or a digit begins a numeral. -/
theorem readValue?_number {c : Char} (hc : c.isDigit = true ∨ c = '-') {numeral : Numeral}
    (h : readNumeral? (c :: t) = some (numeral, after)) :
    readValue? (fuel + 1) (c :: t) = some (.number numeral, after) := by
  have hgap : isGap c = false := by
    rw [← Bool.not_eq_true]
    intro hspace
    simp only [isGap, Bool.or_eq_true, beq_iff_eq] at hspace
    rcases hspace with ((rfl | rfl) | rfl) | rfl <;> exact absurd hc (by decide)
  have hlead {d : Char} {rest : Text} (heq : c :: t = d :: rest) : d.isDigit = true ∨ d = '-' := by
    cases heq
    exact hc
  rw [readValue?, skipGap_cons hgap]
  split
  iterate 6 (rename_i heq; exact absurd (hlead heq) (by decide))
  rw [h]
  rfl

end

/-- A numeral ends before white space and before a mark between values. -/
theorem endsNumeral_append {gap : Text} (hgap : IsGap gap) {c : Char} (hc : c ∈ [',', ']', '}'])
    (rest : Text) : EndsNumeral (gap ++ c :: rest) := by
  have hmarks : [' ', '\t', '\n', '\r', ',', ']', '}'].all
      (fun d => !d.isDigit && d != '.' && d != 'e' && d != 'E') = true := by decide
  have hends {d : Char} (hd : d ∈ [' ', '\t', '\n', '\r', ',', ']', '}']) :
      d.isDigit = false ∧ d ≠ '.' ∧ d ≠ 'e' ∧ d ≠ 'E' := by
    simpa [and_assoc] using List.all_eq_true.mp hmarks d hd
  intro d hd
  cases gap with
  | nil =>
    cases hd
    exact hends (List.mem_append_right [' ', '\t', '\n', '\r'] hc)
  | cons g gap =>
    cases hd
    have hg := hgap d List.mem_cons_self
    refine hends ?_
    simp only [isGap, Bool.or_eq_true, beq_iff_eq] at hg
    rcases hg with ((rfl | rfl) | rfl) | rfl <;> decide

/-- A comma and the end of a container end a numeral. -/
theorem endsNumeral_cons {c : Char} (hc : c ∈ [',', ']', '}']) (rest : Text) :
    EndsNumeral (c :: rest) :=
  endsNumeral_append isGap_nil hc rest

/-- Whether the reader takes a text for a value whose tree has a property, whatever stands after
it. -/
def Scans (P : Tree → Prop) (t : Text) : Prop :=
  ∀ fuel rest, 2 * t.length ≤ fuel → EndsNumeral rest → ∃ tree,
    readValue? fuel (t ++ rest) = some (tree, rest) ∧ P tree

/-- Whether the reader takes a text for a value nested to at most a depth, whatever stands after
it. -/
def Reads (depth : Nat) (j : Json) (t : Text) : Prop :=
  Scans (fun tree => tree.value? unescape? depth = some j.sort) t

/-- Texts with commas between them. -/
def commas : List Text → Text
  | [] => []
  | [t] => t
  | t :: rest => t ++ ',' :: commas rest

/-- The text of a member: its name in quotes, a colon and the text of its value. -/
def quoteMember (lead : Text) (write : Json → Text) (m : Text × Json) : Text :=
  lead ++ quote m.1 ++ ':' :: write m.2

/-- A member is written with its name escaped and a tree for its value. -/
inductive WritesMember (R : Json → Tree → Prop) : Text × Json → Text × Tree → Prop
  | mk (name : Text) {j : Json} {tree : Tree} (h : R j tree) :
      WritesMember R (name, j) (name.flatMap escape, tree)

namespace Scans

variable {P Q : Tree → Prop} {R : Json → Tree → Prop} {t : Text}

/-- What a reader takes for a value of one property it takes for one of any that follows. -/
theorem imp (hPQ : ∀ tree, P tree → Q tree) (h : Scans P t) : Scans Q t := by
  intro fuel rest hfuel hrest
  obtain ⟨tree, hread, hP⟩ := h fuel rest hfuel hrest
  exact ⟨tree, hread, hPQ tree hP⟩

/-- White space may stand before a value. -/
theorem gap {gap : Text} (hgap : IsGap gap) (h : Scans P t) : Scans P (gap ++ t) := by
  intro fuel rest hfuel hrest
  rw [List.length_append] at hfuel
  obtain ⟨tree, hread, hP⟩ := h fuel rest (by omega) hrest
  refine ⟨tree, ?_, hP⟩
  rw [← readValue?_skipGap, List.append_assoc, skipGap_append hgap, readValue?_skipGap, hread]

/-- The items of an array are read one by one. -/
theorem items {write : Json → Text} {close : Text} (hclose : IsGap close) (rest : Text)
    {items : List Json} (hne : items ≠ []) (h : ∀ j ∈ items, Scans (R j) (write j)) (fuel : Nat)
    (hfuel : 2 * (commas (items.map write)).length + 1 ≤ fuel) : ∃ trees,
      readItems? fuel (commas (items.map write) ++ (close ++ ']' :: rest)) = some (trees, rest) ∧
        List.Forall₂ R items trees := by
  induction items generalizing fuel with
  | nil => exact absurd rfl hne
  | cons j items ih =>
    obtain ⟨fuel, rfl⟩ : ∃ n, fuel = n + 1 := ⟨fuel - 1, by omega⟩
    have hfirst := h j List.mem_cons_self
    cases items with
    | nil =>
      have hlast : skipGap (close ++ ']' :: rest) = ']' :: rest := by
        rw [skipGap_append hclose, skipGap_cons (by decide)]
      simp only [List.map_cons, List.map_nil, commas] at hfuel ⊢
      obtain ⟨tree, hread, hR⟩ := hfirst fuel (close ++ ']' :: rest) (by omega)
        (endsNumeral_append hclose (by simp) rest)
      refine ⟨[tree], ?_, .cons hR .nil⟩
      simp only [readItems?, hread, Option.bind_eq_bind, Option.bind_some, hlast]
    | cons k items =>
      have hmore := ih (by simp) (fun x hx => h x (List.mem_cons_of_mem j hx)) fuel
      simp only [List.map_cons, commas, List.length_append, List.length_cons] at hfuel hmore ⊢
      obtain ⟨trees, hreads, hRs⟩ := hmore (by omega)
      rw [List.append_assoc, List.cons_append]
      obtain ⟨tree, hread, hR⟩ := hfirst fuel
        (',' :: (commas (write k :: items.map write) ++ (close ++ ']' :: rest))) (by omega)
        (endsNumeral_cons (by simp) _)
      refine ⟨tree :: trees, ?_, .cons hR hRs⟩
      simp only [readItems?, hread, Option.bind_eq_bind, Option.bind_some,
        skipGap_cons (show isGap ',' = false by decide), hreads, Option.map_some]

/-- The text of an array. -/
theorem array {write : Json → Text} {close : Text} (hclose : IsGap close) {items : List Json}
    (h : ∀ j ∈ items, Scans (R j) (write j)) :
    Scans (fun tree => ∃ trees, tree = .array trees ∧ List.Forall₂ R items trees)
      ('[' :: commas (items.map write) ++ close ++ [']']) := by
  intro fuel rest hfuel hrest
  simp only [List.cons_append, List.append_assoc, List.nil_append, List.length_cons,
    List.length_append, List.length_nil] at hfuel ⊢
  obtain ⟨fuel, rfl⟩ : ∃ n, fuel = n + 1 := ⟨fuel - 1, by omega⟩
  cases items with
  | nil =>
    refine ⟨.array [], readValue?_emptyArray ?_, [], rfl, .nil⟩
    rw [List.map_nil, commas, List.nil_append, skipGap_append hclose, skipGap_cons (by decide)]
  | cons j items =>
    obtain ⟨trees, hread, hRs⟩ := Scans.items hclose rest (List.cons_ne_nil j items) h
      fuel (by omega)
    exact ⟨.array trees, readValue?_array hread, trees, rfl, hRs⟩

/-- The members of an object are read one by one. -/
theorem members {lead close : Text} {write : Json → Text} (hlead : IsGap lead)
    (hclose : IsGap close) (rest : Text) {members : List (Text × Json)} (hne : members ≠ [])
    (h : ∀ m ∈ members, Scans (R m.2) (write m.2)) (fuel : Nat)
    (hfuel : 2 * (commas (members.map (quoteMember lead write))).length + 1 ≤ fuel) : ∃ trees,
      readMembers? fuel (commas (members.map (quoteMember lead write)) ++ (close ++ '}' :: rest)) =
          some (trees, rest) ∧
        List.Forall₂ (WritesMember R) members trees := by
  induction members generalizing fuel with
  | nil => exact absurd rfl hne
  | cons m members ih =>
    -- a member is longer than its value, which pays for the step
    obtain ⟨fuel, rfl⟩ : ∃ n, fuel = n + 1 := ⟨fuel - 1, by omega⟩
    obtain ⟨name, j⟩ := m
    have hfirst := h _ List.mem_cons_self
    have hlength : (quoteMember lead write (name, j)).length =
        (lead ++ quote name).length + ((write j).length + 1) := by
      rw [quoteMember, List.length_append, List.length_cons]
    have hmember (after : Text) : quoteMember lead write (name, j) ++ after =
        lead ++ quote name ++ ':' :: (write j ++ after) := by
      rw [quoteMember, List.append_assoc, List.cons_append]
    cases members with
    | nil =>
      have hlast : skipGap (close ++ '}' :: rest) = '}' :: rest := by
        rw [skipGap_append hclose, skipGap_cons (by decide)]
      simp only [List.map_cons, List.map_nil, commas] at hfuel ⊢
      obtain ⟨tree, hread, hR⟩ := hfirst fuel (close ++ '}' :: rest) (by simp only; omega)
        (endsNumeral_append hclose (by simp) rest)
      refine ⟨[(name.flatMap escape, tree)], ?_, .cons (.mk name hR) .nil⟩
      rw [hmember]
      exact readMembers?_last hlead name _ hread hlast
    | cons k members =>
      have hmore := ih (by simp) (fun x hx => h x (List.mem_cons_of_mem _ hx)) fuel
      simp only [List.map_cons, commas, List.length_append, List.length_cons] at hfuel hmore ⊢
      obtain ⟨trees, hreads, hRs⟩ := hmore (by omega)
      rw [List.append_assoc, List.cons_append, hmember]
      obtain ⟨tree, hread, hR⟩ := hfirst fuel
        (',' :: (commas (quoteMember lead write k :: members.map (quoteMember lead write)) ++
          (close ++ '}' :: rest))) (by simp only [List.length_append] at hlength ⊢; omega)
        (endsNumeral_cons (by simp) _)
      refine ⟨(name.flatMap escape, tree) :: trees, ?_, .cons (.mk name hR) hRs⟩
      exact readMembers?_more hlead name _ hread (skipGap_cons (by decide) _) hreads

/-- The text of an object. -/
theorem object {lead close : Text} {write : Json → Text} (hlead : IsGap lead)
    (hclose : IsGap close) {members : List (Text × Json)}
    (h : ∀ m ∈ members, Scans (R m.2) (write m.2)) :
    Scans (fun tree => ∃ trees, tree = .object trees ∧ List.Forall₂ (WritesMember R) members trees)
      ('{' :: commas (members.map (quoteMember lead write)) ++ close ++ ['}']) := by
  intro fuel rest hfuel hrest
  simp only [List.cons_append, List.append_assoc, List.nil_append, List.length_cons,
    List.length_append, List.length_nil] at hfuel ⊢
  obtain ⟨fuel, rfl⟩ : ∃ n, fuel = n + 1 := ⟨fuel - 1, by omega⟩
  cases members with
  | nil =>
    refine ⟨.object [], readValue?_emptyObject ?_, [], rfl, .nil⟩
    rw [List.map_nil, commas, List.nil_append, skipGap_append hclose, skipGap_cons (by decide)]
  | cons m members =>
    obtain ⟨trees, hread, hRs⟩ := Scans.members hlead hclose rest (List.cons_ne_nil m members) h
      fuel (by omega)
    exact ⟨.object trees, readValue?_object hread, trees, rfl, hRs⟩

/-- The text of the null value. -/
theorem null : Scans (· = .null) "null".toList := by
  intro fuel rest hfuel hrest
  obtain ⟨fuel, rfl⟩ : ∃ n, fuel = n + 1 := ⟨fuel - 1, by simp at hfuel; omega⟩
  exact ⟨.null, rfl, rfl⟩

/-- The text of a truth value. -/
theorem bool (b : Bool) : Scans (· = .bool b) (renderBool b) := by
  intro fuel rest hfuel hrest
  have hpos : 0 < (renderBool b).length := by cases b <;> decide
  obtain ⟨fuel, rfl⟩ : ∃ n, fuel = n + 1 := ⟨fuel - 1, by omega⟩
  cases b <;> exact ⟨_, rfl, rfl⟩

/-- The text of a string. -/
theorem string (t : Text) : Scans (· = .string (t.flatMap escape)) (quote t) := by
  intro fuel rest hfuel hrest
  obtain ⟨fuel, rfl⟩ : ∃ n, fuel = n + 1 := ⟨fuel - 1, by simp [quote] at hfuel; omega⟩
  refine ⟨.string (t.flatMap escape), ?_, rfl⟩
  rw [quote_append]
  exact readValue?_string (readEscaped?_escape t rest)

/-- A text that is read as a numeral, whatever stands after it, begins with a sign or a digit. -/
theorem number {c : Char} (hc : c.isDigit = true ∨ c = '-') {N : Numeral → Prop}
    (h : ∀ rest, EndsNumeral rest → ∃ numeral,
      readNumeral? (c :: t ++ rest) = some (numeral, rest) ∧ N numeral) :
    Scans (fun tree => ∃ numeral, tree = .number numeral ∧ N numeral) (c :: t) := by
  intro fuel rest hfuel hrest
  obtain ⟨numeral, hread, hN⟩ := h rest hrest
  obtain ⟨fuel, rfl⟩ : ∃ n, fuel = n + 1 := ⟨fuel - 1, by simp at hfuel; omega⟩
  exact ⟨.number numeral, readValue?_number hc hread, numeral, rfl, hN⟩

end Scans

/-- Items whose trees stand for their sorted values are read as the sorted items. -/
theorem itemValues?_of_forall₂ {depth : Nat} {items : List Json} {trees : List Tree}
    (h : List.Forall₂ (fun j tree => tree.value? unescape? depth = some j.sort) items trees) :
    itemValues? unescape? depth trees = some (sortItems items) := by
  induction h with
  | nil => rfl
  | cons hvalue _ ih =>
    simp only [itemValues?, hvalue, ih, sortItems, Option.bind_eq_bind, Option.bind_some,
      Option.map_some]

/-- Members whose trees stand for their sorted values are read as the sorted members. -/
theorem memberValues?_of_forall₂ {depth : Nat} {members : List (Text × Json)}
    {trees : List (Text × Tree)}
    (h : List.Forall₂ (WritesMember fun j tree => tree.value? unescape? depth = some j.sort)
      members trees) :
    memberValues? unescape? depth trees = some (sortMembers members) := by
  induction h with
  | nil => rfl
  | cons hfirst _ ih =>
    obtain ⟨name, hvalue⟩ := hfirst
    simp only [memberValues?, unescape?_escape, hvalue, ih, sortMembers, Option.bind_eq_bind,
      Option.bind_some, Option.map_some]

namespace Reads

variable {depth : Nat} {j : Json} {t : Text}

/-- White space may stand before a value. -/
theorem gap {gap : Text} (hgap : IsGap gap) (h : Reads depth j t) : Reads depth j (gap ++ t) :=
  Scans.gap hgap h

/-- The text of an array. -/
theorem array {write : Json → Text} {close : Text} (hclose : IsGap close) {items : List Json}
    (h : ∀ j ∈ items, Reads depth j (write j)) :
    Reads (depth + 1) (.array items) ('[' :: commas (items.map write) ++ close ++ [']']) := by
  refine (Scans.array hclose h).imp ?_
  rintro tree ⟨trees, rfl, hvalues⟩
  simp only [Tree.value?, Nat.add_one_ne_zero, if_false, Nat.add_sub_cancel,
    itemValues?_of_forall₂ hvalues, Option.map_some, sort]

/-- The text of an object. -/
theorem object {lead close : Text} {write : Json → Text} (hlead : IsGap lead)
    (hclose : IsGap close) {members : List (Text × Json)}
    (h : ∀ m ∈ members, Reads depth m.2 (write m.2)) :
    Reads (depth + 1) (.object members)
      ('{' :: commas (members.map (quoteMember lead write)) ++ close ++ ['}']) := by
  refine (Scans.object (R := fun j tree => tree.value? unescape? depth = some j.sort)
    hlead hclose h).imp ?_
  rintro tree ⟨trees, rfl, hvalues⟩
  simp only [Tree.value?, Nat.add_one_ne_zero, if_false, Nat.add_sub_cancel,
    memberValues?_of_forall₂ hvalues, Option.map_some, sort]

/-- The text of the null value. -/
theorem null : Reads depth .null "null".toList :=
  Scans.null.imp fun _ h => by rw [h]; rfl

/-- The text of a truth value. -/
theorem bool (b : Bool) : Reads depth (.bool b) (renderBool b) :=
  (Scans.bool b).imp fun _ h => by rw [h]; rfl

/-- The text of a string. -/
theorem string (t : Text) : Reads depth (.string t) (quote t) := by
  refine (Scans.string t).imp ?_
  rintro tree rfl
  rw [Tree.value?, unescape?_escape]
  rfl

/-- The text of an integer of 64 bits. -/
theorem int {n : Int} (h : IsWord n) : Reads depth (.number (.int n)) (renderInt n) := by
  obtain ⟨c, t, htext, hc⟩ := exists_renderInt n
  have hread := fun (rest : Text) (hrest : EndsNumeral rest) => readNumeral?_renderInt h hrest
  rw [htext] at hread ⊢
  refine (Scans.number hc hread).imp ?_
  rintro tree ⟨numeral, rfl, hvalue⟩
  rw [Tree.value?, hvalue]
  rfl

end Reads

/-- Whether a value is nested to at most a depth and its numbers are integers of 64 bits. -/
inductive Fits : Nat → Json → Prop
  | null {depth : Nat} : Fits depth .null
  | bool {depth : Nat} (b : Bool) : Fits depth (.bool b)
  | int {depth : Nat} {n : Int} (h : IsWord n) : Fits depth (.number (.int n))
  | string {depth : Nat} (t : Text) : Fits depth (.string t)
  | array {depth : Nat} {items : List Json} (h : ∀ j ∈ items, Fits depth j) :
      Fits (depth + 1) (.array items)
  | object {depth : Nat} {members : List (Text × Json)} (h : ∀ m ∈ members, Fits depth m.2) :
      Fits (depth + 1) (.object members)

/-- The compact form of items is their forms with commas between them. -/
theorem compactItems_eq (items : List Json) : compactItems items = commas (items.map compact) := by
  induction items with
  | nil => rfl
  | cons j items ih =>
    cases items with
    | nil => rfl
    | cons k items =>
      rw [compactItems, ih]
      · rfl
      · simp

/-- The compact form of members is their names and forms with commas between them. -/
theorem compactMembers_eq (members : List (Text × Json)) :
    compactMembers members = commas (members.map (quoteMember [] compact)) := by
  induction members with
  | nil => rfl
  | cons m members ih =>
    obtain ⟨name, j⟩ := m
    cases members with
    | nil => rfl
    | cons k members =>
      rw [compactMembers, ih]
      · simp [commas, quoteMember]
      · simp

/-- Indented items stand on lines of their own. -/
theorem indentedItems_eq (level : Nat) (items : List Json) : indentedItems level items =
    commas (items.map fun j => newLine level ++ indented level j) := by
  induction items with
  | nil => rfl
  | cons j items ih =>
    cases items with
    | nil => rfl
    | cons k items =>
      rw [indentedItems, ih]
      · rfl
      · simp

/-- Indented members stand on lines of their own. -/
theorem indentedMembers_eq (level : Nat) (members : List (Text × Json)) :
    indentedMembers level members =
      commas (members.map (quoteMember (newLine level) fun j => ' ' :: indented level j)) := by
  induction members with
  | nil => rfl
  | cons m members ih =>
    obtain ⟨name, j⟩ := m
    cases members with
    | nil => simp [indentedMembers, commas, quoteMember]
    | cons k members =>
      rw [indentedMembers, ih]
      · simp [commas, quoteMember]
      · simp

namespace Fits

variable {depth : Nat} {j : Json}

/-- The blank after a colon is white space of the JSON text. -/
theorem isGap_space : IsGap [' '] := by
  simp [IsGap, isGap]

/-- A new line with its indent is white space of the JSON text. -/
theorem isGap_newLine (level : Nat) : IsGap (newLine level) := by
  intro c hc
  rcases List.mem_cons.mp hc with rfl | hc
  · rfl
  · rw [List.eq_of_mem_replicate hc]
    rfl

/-- The compact form is read back. -/
theorem reads_compact (h : Fits depth j) : Reads depth j (compact j) := by
  induction h with
  | null => exact .null
  | bool b => exact .bool b
  | int h => exact .int h
  | string t => exact .string t
  | @array depth items _ ih =>
    have harray := Reads.array isGap_nil ih
    rw [List.append_nil, ← compactItems_eq] at harray
    exact harray
  | @object depth members _ ih =>
    have hobject := Reads.object isGap_nil isGap_nil ih
    rw [List.append_nil, ← compactMembers_eq] at hobject
    exact hobject

/-- The indented form is read back. -/
theorem reads_indented (h : Fits depth j) (level : Nat) : Reads depth j (indented level j) := by
  induction h generalizing level with
  | null => exact .null
  | bool b => exact .bool b
  | int h => exact .int h
  | string t => exact .string t
  | @array depth items _ ih =>
    cases items with
    | nil =>
      have harray : Reads (depth + 1) (.array []) ('[' :: commas ([].map compact) ++ [] ++ [']']) :=
        Reads.array isGap_nil (by simp)
      exact harray
    | cons j items =>
      have harray := Reads.array (isGap_newLine level) fun k hk =>
        (ih k hk (level + 1)).gap (isGap_newLine (level + 1))
      rw [← indentedItems_eq] at harray
      exact harray
  | @object depth members _ ih =>
    cases members with
    | nil =>
      have hobject : Reads (depth + 1) (.object [])
          ('{' :: commas ([].map (quoteMember [] compact)) ++ [] ++ ['}']) :=
        Reads.object isGap_nil isGap_nil (by simp)
      exact hobject
    | cons m members =>
      have hvalue : ∀ k ∈ m :: members, Reads depth k.2 (' ' :: indented (level + 1) k.2) :=
        fun k hk => (ih k hk (level + 1)).gap isGap_space
      have hobject : Reads (depth + 1) (.object (m :: members)) ('{' :: commas ((m :: members).map
          (quoteMember (newLine (level + 1)) fun j => ' ' :: indented (level + 1) j)) ++
            newLine level ++ ['}']) :=
        Reads.object (isGap_newLine (level + 1)) (isGap_newLine level) hvalue
      rw [← indentedMembers_eq] at hobject
      exact hobject

end Fits

/-- A text that stands for a value is read as the value with its members sorted. -/
theorem Reads.ofText? {j : Json} {t : Text} (h : Reads maxDepth j t) :
    Json.ofText? t = some j.sort := by
  obtain ⟨tree, hread, hvalue⟩ := h (2 * t.length + 2) [] (by omega) (by simp [EndsNumeral])
  rw [List.append_nil] at hread
  have htree : Tree.ofText? t = some tree := by
    rw [Tree.ofText?, hread]
    rfl
  rw [Json.ofText?, htree, Option.bind_eq_bind, Option.bind_some, hvalue]

end PromptScript.Json
