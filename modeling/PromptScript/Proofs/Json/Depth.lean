import Mathlib.Data.List.Forall2
import PromptScript.Json.Record

/-!
# Which trees stand for values

A tree stands for a value if its numerals are in range, its strings and names can be unescaped and
its containers are not nested too deeply. The depth that is allowed decides only whether there is
a value, not which one it is.
-/

namespace PromptScript.Json

mutual

/-- How many containers stand inside each other. -/
def Tree.depth : Tree → Nat
  | .array items => itemsDepth items + 1
  | .object members => membersDepth members + 1
  | _ => 0

/-- The greatest depth of items. -/
def itemsDepth : List Tree → Nat
  | [] => 0
  | tree :: rest => max tree.depth (itemsDepth rest)

/-- The greatest depth of the values of members. -/
def membersDepth : List (Text × Tree) → Nat
  | [] => 0
  | (_, tree) :: rest => max tree.depth (membersDepth rest)

end

section

variable (string? : Unquoting)

mutual

/-- Whether a tree stands for a value, however deep it is nested. -/
def Tree.IsReadable : Tree → Prop
  | .number n => n.number?.isSome
  | .string t => (string? t).isSome
  | .array items => AreReadable items
  | .object members => MembersReadable members
  | _ => True

/-- Whether all items stand for values. -/
def AreReadable : List Tree → Prop
  | [] => True
  | tree :: rest => tree.IsReadable ∧ AreReadable rest

/-- Whether all names can be unescaped and all members stand for values. -/
def MembersReadable : List (Text × Tree) → Prop
  | [] => True
  | (name, tree) :: rest => (string? name).isSome ∧ tree.IsReadable ∧ MembersReadable rest

end

/-- Two results are combined if there are both. -/
theorem isSome_bind_map {α β γ : Type} (x : Option α) (y : Option β) (f : α → β → γ) :
    (x.bind fun a => y.map (f a)).isSome ↔ x.isSome ∧ y.isSome := by
  cases x <;> simp

mutual

/-- A tree has a value if it stands for one and is not nested too deeply. -/
theorem value?_isSome_iff (depth : Nat) : (tree : Tree) →
    ((tree.value? string? depth).isSome ↔ tree.IsReadable string? ∧ tree.depth ≤ depth)
  | .null => by simp [Tree.value?, Tree.IsReadable, Tree.depth]
  | .bool _ => by simp [Tree.value?, Tree.IsReadable, Tree.depth]
  | .number _ => by simp [Tree.value?, Tree.IsReadable, Tree.depth]
  | .string _ => by simp [Tree.value?, Tree.IsReadable, Tree.depth]
  | .array items => by
    cases depth with
    | zero => simp [Tree.value?, Tree.depth]
    | succ depth =>
      simp [Tree.value?, Tree.IsReadable, Tree.depth, itemValues?_isSome_iff depth items]
  | .object members => by
    cases depth with
    | zero => simp [Tree.value?, Tree.depth]
    | succ depth =>
      simp [Tree.value?, Tree.IsReadable, Tree.depth, memberValues?_isSome_iff depth members]

/-- Items stand for values exactly if all are readable and none is nested too deeply. -/
theorem itemValues?_isSome_iff (depth : Nat) : (items : List Tree) →
    ((itemValues? string? depth items).isSome ↔
      AreReadable string? items ∧ itemsDepth items ≤ depth)
  | [] => by simp [itemValues?, AreReadable, itemsDepth]
  | tree :: rest => by
    have hfirst := value?_isSome_iff depth tree
    have hrest := itemValues?_isSome_iff depth rest
    rw [itemValues?, Option.bind_eq_bind, isSome_bind_map, hfirst, hrest, AreReadable, itemsDepth,
      Nat.max_le]
    exact and_and_and_comm

/-- Members stand for values exactly if all are readable and none is nested too deeply. -/
theorem memberValues?_isSome_iff (depth : Nat) : (members : List (Text × Tree)) →
    ((memberValues? string? depth members).isSome ↔
      MembersReadable string? members ∧ membersDepth members ≤ depth)
  | [] => by simp [memberValues?, MembersReadable, membersDepth]
  | (name, tree) :: rest => by
    have hfirst := value?_isSome_iff depth tree
    have hrest := memberValues?_isSome_iff depth rest
    rw [memberValues?, Option.bind_eq_bind, Option.isSome_bind, MembersReadable, membersDepth,
      Nat.max_le]
    cases string? name with
    | none => simp
    | some unescaped =>
      simp only [Option.any_some, Option.bind_eq_bind, isSome_bind_map, hfirst, hrest]
      simp only [Option.isSome_some, true_and]
      exact and_and_and_comm

end

mutual

/-- Depths that are both enough give the same value. -/
theorem value?_eq_of_le {depth other : Nat} : (tree : Tree) → tree.depth ≤ depth →
    tree.depth ≤ other → tree.value? string? depth = tree.value? string? other
  | .null, _, _ => rfl
  | .bool _, _, _ => rfl
  | .number _, _, _ => rfl
  | .string _, _, _ => rfl
  | .array items, h, hother => by
    rw [Tree.depth] at h hother
    rw [Tree.value?, Tree.value?, if_neg (by omega), if_neg (by omega),
      itemValues?_eq_of_le items (Nat.le_sub_one_of_lt h) (Nat.le_sub_one_of_lt hother)]
  | .object members, h, hother => by
    rw [Tree.depth] at h hother
    rw [Tree.value?, Tree.value?, if_neg (by omega), if_neg (by omega),
      memberValues?_eq_of_le members (Nat.le_sub_one_of_lt h) (Nat.le_sub_one_of_lt hother)]

/-- The values of items do not depend on how much deeper they might be nested. -/
theorem itemValues?_eq_of_le {depth other : Nat} : (items : List Tree) → itemsDepth items ≤ depth →
    itemsDepth items ≤ other → itemValues? string? depth items = itemValues? string? other items
  | [], _, _ => rfl
  | tree :: rest, h, hother => by
    rw [itemsDepth, Nat.max_le] at h hother
    rw [itemValues?, itemValues?, value?_eq_of_le tree h.1 hother.1,
      itemValues?_eq_of_le rest h.2 hother.2]

/-- The values of members do not depend on how much deeper they might be nested. -/
theorem memberValues?_eq_of_le {depth other : Nat} : (members : List (Text × Tree)) →
    membersDepth members ≤ depth → membersDepth members ≤ other →
      memberValues? string? depth members = memberValues? string? other members
  | [], _, _ => rfl
  | (name, tree) :: rest, h, hother => by
    rw [membersDepth, Nat.max_le] at h hother
    rw [memberValues?, memberValues?, value?_eq_of_le tree h.1 hother.1,
      memberValues?_eq_of_le rest h.2 hother.2]

end

/-- The members of an object with a name, in the order they are written. -/
def membersNamed (name : Text) (members : List (Text × Tree)) : List Tree :=
  members.filterMap fun m => if string? m.1 = some name then some m.2 else none

/-- Unescaping the names keeps the members that a name has. -/
theorem membersNamed_eq_of_names? {name : Text} {members found : List (Text × Tree)}
    (h : Tree.names? string? members = some found) :
    membersNamed string? name members = (found.filter fun m => m.1 = name).map (·.2) := by
  induction members generalizing found with
  | nil =>
    cases h
    rfl
  | cons m members ih =>
    obtain ⟨written, tree⟩ := m
    simp only [Tree.names?, Option.bind_eq_bind, Option.bind_eq_some_iff,
      Option.map_eq_some_iff] at h
    obtain ⟨own, hown, rest, hrest, rfl⟩ := h
    have hmore := ih hrest
    rw [membersNamed] at hmore ⊢
    by_cases hname : own = name
    · simp [hown, hname, hmore]
    · simp [hown, hname, hmore]

/-- The values of the members that a name has. -/
theorem itemValues?_membersNamed {depth : Nat} (name : Text) {members : List (Text × Tree)}
    {found : List (Text × Json)} (h : memberValues? string? depth members = some found) :
    itemValues? string? depth (membersNamed string? name members) =
      some ((found.filter fun m => m.1 = name).map (·.2)) := by
  induction members generalizing found with
  | nil =>
    cases h
    rfl
  | cons m members ih =>
    obtain ⟨written, tree⟩ := m
    simp only [memberValues?, Option.bind_eq_bind, Option.bind_eq_some_iff,
      Option.map_eq_some_iff] at h
    obtain ⟨own, hown, value, hvalue, rest, hrest, rfl⟩ := h
    have hmore := ih hrest
    rw [membersNamed] at hmore ⊢
    by_cases hname : own = name
    · simp [hown, hname, itemValues?, hvalue, hmore]
    · simp [hown, hname, hmore]

end

end PromptScript.Json
