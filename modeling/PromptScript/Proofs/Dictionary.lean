import Mathlib.Algebra.GroupWithZero.Nat
import Mathlib.Data.List.Induction
import PromptScript.Dictionary

/-!
# Entries of dictionaries

An insertion sets the value of its key and leaves the values of all other keys. A dictionary is
determined by the values of its keys, so two of them can be merged key by key. What the entries
weigh together changes by what the value of the key weighs.
-/

namespace PromptScript.Dictionary

variable {β : Type}

/-- The value of a key among entries is that of the first entry with the key. -/
theorem lookup_cons (entry : Text × β) (entries : List (Text × β)) (key : Text) :
    (entry :: entries).lookup key = if key = entry.1 then some entry.2 else entries.lookup key := by
  obtain ⟨own, value⟩ := entry
  rw [List.lookup_cons]
  by_cases h : key = own
  · simp [h]
  · simp [h, beq_eq_false_iff_ne.mpr h]

/-- A key before all keys of a list has no value there. -/
theorem lookup_eq_none_of_lt {key : Text} {entries : List (Text × β)}
    (h : ∀ entry ∈ entries, key < entry.1) : entries.lookup key = none := by
  refine List.lookup_eq_none_iff.mpr fun entry hentry => ?_
  have hne : key ≠ entry.1 := by
    intro heq
    exact List.lt_irrefl _ (heq ▸ h entry hentry)
  simpa using hne

/-- An insertion into a sorted list is seen at its key and nowhere else. -/
theorem lookup_insertEntry (key : Text) (value : β) (entries : List (Text × β)) (other : Text) :
    (insertEntry key value entries).lookup other =
      if other = key then some value else entries.lookup other := by
  induction entries with
  | nil => exact lookup_cons ..
  | cons head rest ih =>
    rw [insertEntry]
    split
    · rw [lookup_cons]
    · split
      · rename_i hkey
        rw [lookup_cons, lookup_cons, ← hkey]
        split <;> rfl
      · rename_i hkey
        rw [lookup_cons, lookup_cons, ih]
        by_cases h : other = key
        · have hne : other ≠ head.1 := h ▸ hkey
          rw [if_neg hne, if_pos h, if_pos h]
        · simp only [if_neg h]

/-- An insertion sets the value of its key alone. -/
theorem get?_insert (d : Dictionary β) (key : Text) (value : β) (other : Text) :
    (d.insert key value).get? other = if other = key then some value else d.get? other :=
  lookup_insertEntry key value d.entries other

/-- A key has a value exactly if it is among the keys of the entries. -/
theorem isSome_lookup_iff {entries : List (Text × β)} {key : Text} :
    (entries.lookup key).isSome = true ↔ key ∈ entries.map (·.1) := by
  induction entries with
  | nil => simp
  | cons entry entries ih =>
    rw [lookup_cons, List.map_cons, List.mem_cons, ← ih]
    split <;> simp_all

/-- The keys are those that have a value. -/
theorem contains_iff_mem_keys {d : Dictionary β} {key : Text} :
    d.contains key = true ↔ key ∈ d.keys :=
  isSome_lookup_iff

/-- A change of a key's value leaves the values of all other keys. -/
theorem get?_alter (d : Dictionary β) (key : Text) (change : Option β → β) (other : Text) :
    (d.alter key change).get? other =
      if other = key then some (change (d.get? key)) else d.get? other :=
  d.get?_insert key _ other

/-- Entries that are inserted one after the other go before what was there, if no key stands twice
among them. -/
theorem get?_foldl_insert {entries : List (Text × β)} (h : (entries.map (·.1)).Nodup)
    (d : Dictionary β) (key : Text) :
    (entries.foldl (fun d entry => d.insert entry.1 entry.2) d).get? key =
      (entries.lookup key).or (d.get? key) := by
  induction entries generalizing d with
  | nil => rfl
  | cons entry entries ih =>
    obtain ⟨hnew, hrest⟩ := List.nodup_cons.mp h
    rw [List.foldl_cons, ih hrest, get?_insert, lookup_cons]
    by_cases hkey : key = entry.1
    · have hnone : entries.lookup key = none := by
        refine List.lookup_eq_none_iff.mpr fun other hother => ?_
        have hne : key ≠ other.1 := fun heq =>
          hnew (List.mem_map.mpr ⟨other, hother, heq.symm.trans hkey⟩)
        simpa using hne
      rw [hnone, if_pos hkey, if_pos hkey]
      rfl
    · rw [if_neg hkey, if_neg hkey]

/-- A list in which no key stands twice gives each key its value. -/
theorem get?_ofList {entries : List (Text × β)} (h : (entries.map (·.1)).Nodup) (key : Text) :
    (ofList entries).get? key = entries.lookup key := by
  have hempty : (empty : Dictionary β).get? key = none := rfl
  rw [ofList, get?_foldl_insert h, hempty, Option.or_none]

/-- The value of a key is the first one that the entries have for it. -/
theorem lookup_eq_head?_filter (entries : List (Text × β)) (key : Text) :
    entries.lookup key = ((entries.filter fun entry => entry.1 = key).map (·.2)).head? := by
  induction entries with
  | nil => rfl
  | cons entry entries ih =>
    rw [lookup_cons]
    by_cases hkey : key = entry.1
    · rw [if_pos hkey, List.filter_cons_of_pos (by simp [hkey])]
      rfl
    · rw [if_neg hkey, List.filter_cons_of_neg (by simpa using Ne.symm hkey), ih]

/-- Of the values that a list has for a key the last one counts. -/
theorem get?_ofList_eq_getLast? (entries : List (Text × β)) (key : Text) :
    (ofList entries).get? key =
      ((entries.filter fun entry => entry.1 = key).map (·.2)).getLast? := by
  induction entries using List.reverseRecOn with
  | nil => rfl
  | append_singleton entries entry ih =>
    have hlast : ofList (entries ++ [entry]) = (ofList entries).insert entry.1 entry.2 := by
      rw [ofList, List.foldl_append]
      rfl
    rw [hlast, get?_insert, ih, List.filter_append, List.map_append]
    by_cases hkey : key = entry.1
    · rw [if_pos hkey, List.filter_cons_of_pos (by simp [hkey])]
      simp
    · rw [if_neg hkey, List.filter_cons_of_neg (by simpa using Ne.symm hkey)]
      simp

/-- A later list goes before an earlier one. -/
theorem get?_ofList_append (entries more : List (Text × β)) (key : Text) :
    (ofList (entries ++ more)).get? key = ((ofList more).get? key).or ((ofList entries).get? key) := by
  simp only [get?_ofList_eq_getLast?, List.filter_append, List.map_append, List.getLast?_append]

/-- A key after all keys of a list goes to its end. -/
theorem insertEntry_of_lt {key : Text} {value : β} {entries : List (Text × β)}
    (h : ∀ entry ∈ entries, entry.1 < key) :
    insertEntry key value entries = entries ++ [(key, value)] := by
  induction entries with
  | nil => rfl
  | cons entry entries ih =>
    obtain ⟨hentry, hrest⟩ := List.forall_mem_cons.mp h
    have hne : key ≠ entry.1 := by
      rintro rfl
      exact List.lt_irrefl _ hentry
    rw [insertEntry, if_neg (List.lt_asymm hentry), if_neg hne, ih hrest, List.cons_append]

/-- Entries that come in order after those of a dictionary are added at its end. -/
theorem entries_foldl_insert {entries : List (Text × β)} (d : Dictionary β)
    (h : (d.entries ++ entries).Pairwise fun a b => a.1 < b.1) :
    (entries.foldl (fun d entry => d.insert entry.1 entry.2) d).entries = d.entries ++ entries := by
  induction entries generalizing d with
  | nil => exact (List.append_nil _).symm
  | cons entry entries ih =>
    have hlast : (d.insert entry.1 entry.2).entries = d.entries ++ [entry] :=
      insertEntry_of_lt fun other hother =>
        (List.pairwise_append.mp h).2.2 other hother entry List.mem_cons_self
    rw [List.foldl_cons, ih _ (by rwa [hlast, List.append_assoc]), hlast, List.append_assoc]
    rfl

/-- A dictionary is its entries; that they are in order is a proposition. -/
theorem eq_of_entries {a b : Dictionary β} (h : a.entries = b.entries) : a = b := by
  cases a
  cases b
  cases h
  rfl

/-- A dictionary is that of its entries. -/
theorem ofList_entries (d : Dictionary β) : ofList d.entries = d :=
  eq_of_entries (entries_foldl_insert empty d.sorted)

/-- No key with a value comes before the first. -/
theorem not_lt_of_lookup {x : Text × β} {xs : List (Text × β)} (hx : ∀ entry ∈ xs, x.1 < entry.1)
    {key : Text} {value : β} (h : (x :: xs).lookup key = some value) : ¬key < x.1 := by
  intro hlt
  have hbefore : ∀ entry ∈ x :: xs, key < entry.1 :=
    List.forall_mem_cons.mpr ⟨hlt, fun entry hentry => List.lt_trans hlt (hx entry hentry)⟩
  rw [lookup_eq_none_of_lt hbefore] at h
  cases h

/-- Two sorted lists that give every key the same value are equal. -/
theorem eq_of_lookup {xs ys : List (Text × β)} (hxs : xs.Pairwise fun a b => a.1 < b.1)
    (hys : ys.Pairwise fun a b => a.1 < b.1) (h : ∀ key, xs.lookup key = ys.lookup key) :
    xs = ys := by
  induction hxs generalizing ys with
  | nil =>
    cases ys with
    | nil => rfl
    | cons y ys =>
      have hnone := h y.1
      rw [lookup_cons, if_pos rfl] at hnone
      cases hnone
  | @cons x xs hx hxs ih =>
    have hx' : ys.lookup x.1 = some x.2 := by rw [← h, lookup_cons, if_pos rfl]
    cases hys with
    | nil => cases hx'
    | @cons y ys hy hys =>
      have hy' : (x :: xs).lookup y.1 = some y.2 := by rw [h, lookup_cons, if_pos rfl]
      have hkey : x.1 = y.1 := by
        by_contra hne
        exact not_lt_of_lookup hx hy' (lt_of_not_lt_of_ne (not_lt_of_lookup hy hx') hne)
      have hvalue : x.2 = y.2 := by
        rw [lookup_cons, if_pos hkey] at hx'
        exact (Option.some.inj hx').symm
      have hrest : xs = ys := ih hys fun key => by
        by_cases heq : key = x.1
        · rw [heq, lookup_eq_none_of_lt hx, hkey, lookup_eq_none_of_lt hy]
        · have hlookup := h key
          rwa [lookup_cons, lookup_cons, if_neg heq, if_neg (hkey ▸ heq)] at hlookup
      rw [hrest, Prod.ext hkey hvalue]

/-- Dictionaries that give every key the same value are equal. -/
theorem ext_get? {a b : Dictionary β} (h : ∀ key, a.get? key = b.get? key) : a = b :=
  eq_of_entries (eq_of_lookup a.sorted b.sorted h)

/-- The dictionary with the keys of two, in which the values that both have for a key are
combined. -/
def merge (a b : Dictionary β) (combine : β → β → β) : Dictionary β :=
  b.entries.foldl
    (fun d entry => d.alter entry.1 fun found => ((found.map (combine · entry.2)).getD entry.2)) a

/-- Sorted entries that are combined with those of a dictionary one after the other are merged with
it key by key. -/
theorem get?_foldl_alter (combine : β → β → β) {entries : List (Text × β)}
    (h : entries.Pairwise fun a b => a.1 < b.1) (d : Dictionary β) (key : Text) :
    (entries.foldl (fun d entry =>
        d.alter entry.1 fun found => ((found.map (combine · entry.2)).getD entry.2)) d).get? key =
      Option.merge combine (d.get? key) (entries.lookup key) := by
  induction h generalizing d with
  | nil => exact Option.merge_none_right.symm
  | @cons entry entries hentry _ ih =>
    rw [List.foldl_cons, ih, get?_alter, lookup_cons]
    by_cases hkey : key = entry.1
    · rw [if_pos hkey, if_pos hkey, hkey, lookup_eq_none_of_lt hentry]
      cases d.get? entry.1 <;> rfl
    · rw [if_neg hkey, if_neg hkey]

/-- A key has what the one dictionary or the other has for it, or what both have, combined. -/
theorem get?_merge (a b : Dictionary β) (combine : β → β → β) (key : Text) :
    (a.merge b combine).get? key = Option.merge combine (a.get? key) (b.get? key) :=
  get?_foldl_alter combine b.sorted a key

/-- What the entries weigh together. -/
def weigh (d : Dictionary β) (weight : β → Nat) : Nat :=
  (d.entries.map fun entry => weight entry.2).sum

/-- An insertion takes away the weight of what the key had and adds that of its new value. -/
theorem sum_insertEntry (weight : β → Nat) (key : Text) (value : β) {entries : List (Text × β)}
    (h : entries.Pairwise fun a b => a.1 < b.1) :
    ((insertEntry key value entries).map fun entry => weight entry.2).sum +
        ((entries.lookup key).map weight).getD 0 =
      (entries.map fun entry => weight entry.2).sum + weight value := by
  induction entries with
  | nil => simp [insertEntry]
  | cons head rest ih =>
    obtain ⟨hfirst, hrest⟩ := List.pairwise_cons.mp h
    rw [insertEntry]
    split
    · rename_i hlt
      have hnone : (head :: rest).lookup key = none :=
        lookup_eq_none_of_lt (List.forall_mem_cons.mpr
          ⟨hlt, fun entry hentry => List.lt_trans hlt (hfirst entry hentry)⟩)
      rw [hnone, List.map_cons, List.sum_cons]
      simp only [Option.map_none, Option.getD_none]
      omega
    · split
      · rename_i hkey
        rw [lookup_cons, if_pos hkey, List.map_cons, List.map_cons, List.sum_cons, List.sum_cons]
        simp only [Option.map_some, Option.getD_some]
        omega
      · rename_i hkey
        rw [lookup_cons, if_neg hkey, List.map_cons, List.map_cons, List.sum_cons, List.sum_cons]
        have hrec := ih hrest
        omega

/-- The value of a key that is set takes the place of what it had. -/
theorem weigh_insert (d : Dictionary β) (weight : β → Nat) (key : Text) (value : β) :
    (d.insert key value).weigh weight + ((d.get? key).map weight).getD 0 =
      d.weigh weight + weight value :=
  sum_insertEntry weight key value d.sorted

/-- A key that is new adds one entry. -/
theorem size_insert {d : Dictionary β} {key : Text} (h : d.contains key = false) (value : β) :
    (d.insert key value).size = d.size + 1 := by
  have hnone : d.get? key = none := Option.isNone_iff_eq_none.mp (by simpa [contains] using h)
  have hweigh := d.weigh_insert (fun _ => 1) key value
  rw [hnone] at hweigh
  simpa [weigh, size, List.map_const'] using hweigh

end PromptScript.Dictionary
