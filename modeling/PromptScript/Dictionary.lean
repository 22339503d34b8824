import PromptScript.Text.Blank

/-!
# Dictionaries

A dictionary is a list of keyed values in strictly increasing order of the keys, so two
dictionaries with the same entries are equal. Keys are compared code point by code point.
-/

namespace PromptScript

/-- A finite map from text, its entries sorted by key. -/
structure Dictionary (β : Type) where
  /-- The keyed values, each key once, in increasing order. -/
  entries : List (Text × β)
  /-- The keys increase strictly. -/
  sorted : entries.Pairwise fun a b => a.1 < b.1

namespace Dictionary

variable {β : Type}

instance [DecidableEq β] : DecidableEq (Dictionary β) := fun a b =>
  decidable_of_iff (a.entries = b.entries) (by cases a; cases b; simp)

/-- The dictionary without entries. -/
def empty : Dictionary β :=
  ⟨[], List.Pairwise.nil⟩

instance : Inhabited (Dictionary β) := ⟨empty⟩

/-- Puts a keyed value into a sorted list, in place of the value the key had. -/
def insertEntry (key : Text) (value : β) : List (Text × β) → List (Text × β)
  | [] => [(key, value)]
  | entry :: rest =>
    if key < entry.1 then (key, value) :: entry :: rest
    else if key = entry.1 then (key, value) :: rest
    else entry :: insertEntry key value rest

/-- An insertion brings in no key but its own. -/
theorem mem_insertEntry {key : Text} {value : β} {entry : Text × β} {entries : List (Text × β)}
    (h : entry ∈ insertEntry key value entries) : entry = (key, value) ∨ entry ∈ entries := by
  induction entries with
  | nil => simpa [insertEntry] using h
  | cons head rest ih =>
    rw [insertEntry] at h
    split at h
    · simpa using h
    · split at h
      · rcases List.mem_cons.mp h with h | h
        · exact Or.inl h
        · exact Or.inr (List.mem_cons_of_mem _ h)
      · rcases List.mem_cons.mp h with h | h
        · exact Or.inr (h ▸ List.mem_cons_self)
        · exact (ih h).imp id (List.mem_cons_of_mem _)

/-- Of two different texts that is not less which is greater. -/
theorem lt_of_not_lt_of_ne {a b : Text} (h : ¬ a < b) (hne : a ≠ b) : b < a := by
  rcases List.le_iff_lt_or_eq.mp (List.not_lt.mp h) with hlt | heq
  · exact hlt
  · exact absurd heq.symm hne

/-- An insertion keeps the order of the keys. -/
theorem sorted_insertEntry (key : Text) (value : β) {entries : List (Text × β)}
    (h : entries.Pairwise fun a b => a.1 < b.1) :
    (insertEntry key value entries).Pairwise fun a b => a.1 < b.1 := by
  induction entries with
  | nil => simp [insertEntry]
  | cons head rest ih =>
    obtain ⟨hhead, hrest⟩ := List.pairwise_cons.mp h
    rw [insertEntry]
    split
    · rename_i hlt
      refine List.pairwise_cons.mpr ⟨fun entry hentry => ?_, h⟩
      rcases List.mem_cons.mp hentry with he | he
      · exact he ▸ hlt
      · exact List.lt_trans hlt (hhead entry he)
    · split
      · rename_i heq
        exact List.pairwise_cons.mpr ⟨fun entry hentry => heq ▸ hhead entry hentry, hrest⟩
      · rename_i hlt hne
        refine List.pairwise_cons.mpr ⟨fun entry hentry => ?_, ih hrest⟩
        rcases mem_insertEntry hentry with he | he
        · exact he ▸ lt_of_not_lt_of_ne hlt hne
        · exact hhead entry he

/-- The dictionary in which a key has a new value. -/
def insert (d : Dictionary β) (key : Text) (value : β) : Dictionary β :=
  ⟨insertEntry key value d.entries, sorted_insertEntry key value d.sorted⟩

/-- The dictionary of a list of keyed values; of two values for one key the later counts. -/
def ofList (entries : List (Text × β)) : Dictionary β :=
  entries.foldl (fun d entry => d.insert entry.1 entry.2) empty

/-- The value of a key. -/
def get? (d : Dictionary β) (key : Text) : Option β :=
  d.entries.lookup key

/-- Whether a key has a value. -/
def contains (d : Dictionary β) (key : Text) : Bool :=
  (d.get? key).isSome

/-- The keys in increasing order. -/
def keys (d : Dictionary β) : List Text :=
  d.entries.map (·.1)

/-- Whether there is no entry. -/
def isEmpty (d : Dictionary β) : Bool :=
  d.entries.isEmpty

/-- The number of entries. -/
def size (d : Dictionary β) : Nat :=
  d.entries.length

/-- The dictionary in which a key's value is replaced by a function of what it had. -/
def alter (d : Dictionary β) (key : Text) (change : Option β → β) : Dictionary β :=
  d.insert key (change (d.get? key))

end Dictionary

end PromptScript
