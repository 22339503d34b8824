import Mathlib.Data.List.Nodup
import PromptScript.Json.Document
import PromptScript.Proofs.Dictionary
import PromptScript.Proofs.Json.Reading

/-!
# Records that are restored

A record is written as an object that leaves some members out, and comes out of a text with its
members sorted. Each member is looked up under its own name, so a decoder gives the record back
from either form if it gives back each of its members.
-/

namespace PromptScript.Json

/-- Sorting the members of values keeps the names of the members. -/
theorem map_fst_sortMembers (members : List (Text × Json)) :
    (sortMembers members).map (·.1) = members.map (·.1) := by
  induction members with
  | nil => rfl
  | cons m members ih => rw [sortMembers, List.map_cons, List.map_cons, ih]

/-- A member that is looked up among sorted ones is the sorted member. -/
theorem lookup_sortMembers (members : List (Text × Json)) (name : Text) :
    (sortMembers members).lookup name = (members.lookup name).map sort := by
  induction members with
  | nil => rfl
  | cons m members ih =>
    rw [sortMembers, Dictionary.lookup_cons, Dictionary.lookup_cons, ih]
    split <;> rfl

/-- The members of a record by their names; those without a value are left out. -/
abbrev Row := List (String × Option Json)

namespace Row

/-- The members that are there. -/
def members (row : Row) : List (Text × Json) :=
  row.flatMap fun entry => memberIf entry.1 entry.2

variable {row : Row} {name : String} {value : Option Json}

/-- The members of two rows are those of the one and then those of the other. -/
theorem members_append (row other : Row) :
    members (row ++ other) = row.members ++ other.members :=
  List.flatMap_append

/-- A member that may be left out is found under its own name alone. -/
theorem lookup_memberIf (name : String) (value : Option Json) (other : String) :
    (memberIf name value).lookup other.toList = if other = name then value else none := by
  cases value with
  | none => simp [memberIf]
  | some j =>
    rw [memberIf, member, Dictionary.lookup_cons]
    simp only [String.toList_inj, List.lookup_nil]

/-- A name is looked up in the first entry of a row and then in the others. -/
theorem lookup_members_cons (entry : String × Option Json) (row : Row) (name : String) :
    (members (entry :: row)).lookup name.toList =
      (if name = entry.1 then entry.2 else none).or (row.members.lookup name.toList) := by
  rw [members, List.flatMap_cons, List.lookup_append, lookup_memberIf]
  rfl

/-- Nothing is found under a name that no entry of a row has. -/
theorem lookup_members_eq_none (h : name ∉ row.map (·.1)) :
    row.members.lookup name.toList = none := by
  induction row with
  | nil => rfl
  | cons entry row ih =>
    rw [lookup_members_cons, if_neg (List.ne_of_not_mem_cons h),
      ih (List.not_mem_of_not_mem_cons h)]
    rfl

/-- A member is found under its name. -/
theorem lookup_members (hrow : (row.map (·.1)).Nodup) (h : (name, value) ∈ row) :
    row.members.lookup name.toList = value := by
  induction row with
  | nil => cases h
  | cons entry row ih =>
    obtain ⟨hnew, hrest⟩ := List.nodup_cons.mp hrow
    rw [lookup_members_cons]
    rcases List.mem_cons.mp h with rfl | h
    · rw [if_pos rfl, lookup_members_eq_none hnew, Option.or_none]
    · have hne : name ≠ entry.1 := by
        rintro rfl
        exact hnew (List.mem_map.mpr ⟨_, h, rfl⟩)
      rw [if_neg hne, ih hrest h, Option.none_or]

/-- No name stands twice among the members if none does in the row. -/
theorem nodup_members (hrow : (row.map (·.1)).Nodup) : (row.members.map (·.1)).Nodup := by
  have hnames : (row.members.map (·.1)).Sublist ((row.map (·.1)).map String.toList) := by
    induction row with
    | nil => exact List.Sublist.refl _
    | cons entry row ih =>
      rw [members, List.flatMap_cons, List.map_append]
      have hfirst : ((memberIf entry.1 entry.2).map (·.1)).Sublist [entry.1.toList] := by
        cases entry.2 with
        | none => exact List.nil_sublist _
        | some j => exact List.Sublist.refl _
      exact hfirst.append (ih (List.nodup_cons.mp hrow).2)
  exact (hrow.map fun _ _ h => String.toList_inj.mp h).sublist hnames

end Row

/-- Whether a member is found among members under its name, as it is or sorted. -/
def Shows (members : List (Text × Json)) (name : String) (value : Option Json) : Prop :=
  members.lookup name.toList = value ∨ members.lookup name.toList = value.map sort

/-- Whether a decoder gives a value back from its written form: from the form as it is and from the
one with sorted members, which is how it comes out of a text. The form is nested to at most a depth
and its numbers are integers of 64 bits. -/
structure Restores {α : Type} (decode : Json → Option α) (depth : Nat) (j : Json) (a : α) :
    Prop where
  /-- The form as it is gives the value. -/
  decode_eq : decode j = some a
  /-- The form with sorted members gives the value. -/
  decode_sort : decode j.sort = some a
  /-- The form can stand in a text. -/
  fits : Fits depth j

/-- A record is restored if its decoder finds each member. -/
theorem restores_record {α : Type} {decode : Json → Option α} {depth : Nat} (row : Row) {a : α}
    (hrow : (row.map (·.1)).Nodup) (hfits : ∀ entry ∈ row, ∀ j ∈ entry.2, Fits depth j)
    (h : ∀ members, (∀ entry ∈ row, Shows members entry.1 entry.2) →
      decode (.object members) = some a) :
    Restores decode (depth + 1) (.object row.members) a where
  decode_eq := h _ fun entry hmem => Or.inl (Row.lookup_members hrow hmem)
  decode_sort := by
    refine h _ fun entry hmem => Or.inr ?_
    have hnames : ((sortMembers row.members).map (·.1)).Nodup := by
      rw [map_fst_sortMembers]
      exact Row.nodup_members hrow
    have hlookup := Dictionary.get?_ofList hnames entry.1.toList
    rw [lookup_sortMembers, Row.lookup_members hrow hmem] at hlookup
    exact hlookup
  fits := by
    refine .object fun m hm => ?_
    obtain ⟨⟨name, value⟩, hentry, hmem⟩ := List.mem_flatMap.mp hm
    cases value with
    | none => cases hmem
    | some j =>
      rw [List.mem_singleton.mp hmem]
      exact hfits _ hentry j rfl

namespace Shows

variable {α : Type} {decode : Json → Option α} {depth : Nat} {members : List (Text × Json)}
  {name : String} {place : Nat} {j : Json} {a : α}

/-- A member that is there gives its value. -/
theorem required (h : Shows members name (some j)) (hj : Restores decode depth j a) :
    (Fields.named members).required name place decode = some a := by
  rw [Fields.required, Fields.find?]
  rcases h with hfind | hfind
  · rw [hfind]
    exact hj.decode_eq
  · rw [hfind]
    exact hj.decode_sort

/-- A member that may be absent gives its value. -/
theorem optional {o : Option α} {encode : α → Json} (h : Shows members name (o.map encode))
    (ho : ∀ x ∈ o, Restores decode depth (encode x) x) (hnull : decode .null = none) :
    (Fields.named members).optional name place decode = some o := by
  have hfind : (Fields.named members).find? name place = o.map encode ∨
      (Fields.named members).find? name place = (o.map encode).map sort := h
  cases o with
  | none =>
    have hnone : (Fields.named members).find? name place = none := hfind.elim id id
    rw [Fields.optional, hnone]
  | some x =>
    have hx := ho x rfl
    have hgiven : ∃ j, (Fields.named members).find? name place = some j ∧ decode j = some x :=
      hfind.elim (fun heq => ⟨_, heq, hx.decode_eq⟩) fun heq => ⟨_, heq, hx.decode_sort⟩
    obtain ⟨j, hj, hdecode⟩ := hgiven
    have hne : j ≠ .null := by
      rintro rfl
      rw [hnull] at hdecode
      cases hdecode
    rw [Fields.optional, hj]
    simp only [hdecode, Option.map_some]

/-- A member that is left out for its default gives its value. -/
theorem defaulted {default : α} {empty : Bool}
    (h : Shows members name (if empty then none else some j)) (hj : Restores decode depth j a)
    (hdefault : empty = true → a = default) :
    (Fields.named members).withDefault name place default decode = some a := by
  cases empty with
  | true =>
    have habsent : (Fields.named members).find? name place = none := h.elim id id
    rw [Fields.withDefault, habsent, hdefault rfl]
  | false =>
    have hfind : (Fields.named members).find? name place = some j ∨
        (Fields.named members).find? name place = some j.sort := h
    rw [Fields.withDefault]
    rcases hfind with hfind | hfind
    · rw [hfind]
      exact hj.decode_eq
    · rw [hfind]
      exact hj.decode_sort

/-- A member that is not there gives nothing. -/
theorem missing (h : Shows members name none) :
    (Fields.named members).required name place decode = none := by
  have habsent : (Fields.named members).find? name place = none := h.elim id id
  rw [Fields.required, habsent]
  rfl

/-- The tag of a record gives its place. -/
theorem tagged {counted : Bool} {tags : List Text} {tag : Text}
    (h : Shows members "type" (some (.string tag)))
    (htag : tags.findIdx? (· == tag) = some place) :
    tagged? counted tags (.object members) = some (place, .named members) := by
  have hfind : members.lookup "type".toList = some (.string tag) := h.elim id id
  rw [tagged?, hfind]
  simp only [Option.bind_some, tagPlace?, htag, Option.bind_eq_bind]

end Shows

namespace Restores

variable {α : Type} {decode : Json → Option α} {depth : Nat} {j : Json} {a : α}

/-- A member that is always there is not nested more deeply than what is restored. -/
theorem fits_required (h : Restores decode depth j a) : ∀ k ∈ some j, Fits depth k := by
  rintro k ⟨⟩
  exact h.fits

/-- A member that may be absent is not nested more deeply than what is restored. -/
theorem fits_optional {o : Option α} {encode : α → Json}
    (h : ∀ x ∈ o, Restores decode depth (encode x) x) : ∀ k ∈ o.map encode, Fits depth k := by
  intro k hk
  obtain ⟨x, hx, rfl⟩ := Option.map_eq_some_iff.mp hk
  exact (h x hx).fits

/-- A member that is left out if it is empty is not nested more deeply than what is restored. -/
theorem fits_defaulted (h : Restores decode depth j a) {empty : Bool} :
    ∀ k ∈ if empty then none else some j, Fits depth k := by
  cases empty with
  | true => rintro k ⟨⟩
  | false => exact h.fits_required

/-- A text is restored from a string. -/
theorem text (depth : Nat) (t : Text) : Restores text? depth (.string t) t :=
  ⟨rfl, rfl, .string t⟩

/-- A number of 64 bits is restored from an integer. -/
theorem nat {n : Nat} (h : n ≤ maxWord) : Restores nat? depth (nat n) n := by
  have hdecode : nat? (Json.nat n) = some n := if_pos h
  refine ⟨hdecode, hdecode, .int ⟨?_, ?_⟩⟩
  · omega
  · exact Int.ofNat_le.mpr h

/-- A choice is restored from its name. -/
theorem choice {choices : List (Text × α)} {name : Text} {a : α}
    (h : choices.lookup name = some a) : Restores (choice? choices) depth (.string name) a :=
  ⟨h, h, .string name⟩

/-- A list is restored from an array if each of its values is. -/
theorem list {encode : α → Json} {xs : List α} (h : ∀ x ∈ xs, Restores decode depth (encode x) x) :
    Restores (list? decode) (depth + 1) (.array (xs.map encode)) xs := by
  have hitems : items? decode (xs.map encode) = some xs ∧
      items? decode (sortItems (xs.map encode)) = some xs := by
    induction xs with
    | nil => exact ⟨rfl, rfl⟩
    | cons x xs ih =>
      obtain ⟨hx, hxs⟩ := List.forall_mem_cons.mp h
      obtain ⟨hplain, hsorted⟩ := ih hxs
      constructor
      · rw [List.map_cons, items?, hx.decode_eq, Option.bind_eq_bind, Option.bind_some, hplain]
        rfl
      · rw [List.map_cons, sortItems, items?, hx.decode_sort, Option.bind_eq_bind, Option.bind_some,
          hsorted]
        rfl
  refine ⟨hitems.1, ?_, .array fun j hj => ?_⟩
  · rw [sort]
    exact hitems.2
  · obtain ⟨x, hx, rfl⟩ := List.mem_map.mp hj
    exact (h x hx).fits

/-- Parameters are in order as they are written. -/
theorem params (depth : Nat) (params : Params) :
    Restores (dictionary? text?) (depth + 1) params.toJson params := by
  have hsorted : ∀ entries : List (Text × Text),
      sortMembers (entries.map fun entry => (entry.1, .string entry.2)) =
        entries.map fun entry => (entry.1, .string entry.2) := by
    intro entries
    induction entries with
    | nil => rfl
    | cons entry entries ih =>
      rw [List.map_cons, sortMembers, ih]
      rfl
  have hvalues : ∀ entries : List (Text × Text),
      values? text? (entries.map fun entry => (entry.1, .string entry.2)) = some entries := by
    intro entries
    induction entries with
    | nil => rfl
    | cons entry entries ih =>
      rw [List.map_cons, values?, ih]
      rfl
  have hdecode : dictionary? text? params.toJson = some params := by
    rw [Params.toJson, dictionary?, hvalues, Option.map_some, Dictionary.ofList_entries]
  have hsort : params.toJson.sort = params.toJson := by
    have hordered : (params.entries.map fun entry => (entry.1, Json.string entry.2)).Pairwise
        fun a b => a.1 < b.1 := List.pairwise_map.mpr params.sorted
    rw [Params.toJson, sort, hsorted, Dictionary.ofList_entries ⟨_, hordered⟩]
    rfl
  refine ⟨hdecode, hsort.symm ▸ hdecode, .object fun m hm => ?_⟩
  obtain ⟨entry, -, rfl⟩ := List.mem_map.mp hm
  exact .string entry.2

end Restores

end PromptScript.Json
