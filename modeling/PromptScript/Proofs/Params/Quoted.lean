import PromptScript.Proofs.Params.Entries

/-!
# Quoted entries

Inside double quotes no separator counts, and trimming and unquoting give back what stands there. So
the parameters of a body whose keys and values are all quoted are these keys and values, whatever
they hold besides quotes and backslashes.
-/

namespace PromptScript.Params

open Text (trim unquote)

/-- Whether a text can stand in double quotes as it is: it holds no double quote and no backslash. -/
def FitsQuotes (t : Text) : Prop :=
  '"' ∉ t ∧ '\\' ∉ t

instance (t : Text) : Decidable (FitsQuotes t) :=
  inferInstanceAs (Decidable (_ ∧ _))

/-- A text in double quotes. -/
def inQuotes (t : Text) : Text :=
  '"' :: (t ++ ['"'])

/-- A key and a value in double quotes, with a colon between them. -/
def quotedEntry (entry : Text × Text) : Text :=
  inQuotes entry.1 ++ ':' :: ' ' :: inQuotes entry.2

/-- The body of quoted entries in a row. -/
def quotedBody (entries : List (Text × Text)) : Text :=
  Text.join ", ".toList (entries.map quotedEntry)

variable {separator : Char} {t : Text} {entry : Text × Text}

namespace Nesting

/-- Inside double quotes and outside brackets. -/
def inside : Nesting := ⟨true, false, 0⟩

/-- Text that fits in quotes does not end them. -/
theorem past_inside (h : FitsQuotes t) : inside.past t = inside := by
  induction t with
  | nil => rfl
  | cons c t ih =>
    obtain ⟨hquote, hescape⟩ := h
    have hc : c ≠ '"' ∧ c ≠ '\\' :=
      ⟨(List.ne_of_not_mem_cons hquote).symm, (List.ne_of_not_mem_cons hescape).symm⟩
    have hstep : inside.step c = inside := by simp [step, inside, hc]
    rw [past_cons, hstep]
    exact ih ⟨List.not_mem_of_not_mem_cons hquote, List.not_mem_of_not_mem_cons hescape⟩

/-- Past a quoted text nothing is open. -/
theorem past_inQuotes (h : FitsQuotes t) : top.past (inQuotes t) = top := by
  have hopen : top.past (inQuotes t) = (inside.past t).past ['"'] := past_append inside t ['"']
  rw [hopen, past_inside h]
  rfl

end Nesting

/-- No separator inside quotes counts. -/
theorem isUncut_inQuotes (hseparator : separator ≠ '"') (h : FitsQuotes t) :
    IsUncut separator .top (inQuotes t) := by
  have hinside : IsUncut separator .inside t := by
    rintro lead rest rfl
    have hlead : FitsQuotes lead :=
      ⟨fun hmem => h.1 (List.mem_append_left _ hmem), fun hmem => h.2 (List.mem_append_left _ hmem)⟩
    rw [Nesting.past_inside hlead]
    rfl
  refine isUncut_cons.mpr ⟨fun heq => absurd heq.symm hseparator, isUncut_append.mpr ⟨hinside, ?_⟩⟩
  exact isUncut_of_not_mem (by simpa using hseparator)

/-- Unquoting takes the quotes away again. -/
theorem unquote_inQuotes (t : Text) : unquote (inQuotes t) = t := by
  simp [unquote, inQuotes, Text.dropStart?, Text.dropLast?]

/-- A quoted text is trimmed, as quotes are no white space. -/
theorem trim_inQuotes (t : Text) : trim (inQuotes t) = inQuotes t :=
  Text.trim_between rfl rfl t

section

variable (hkey : FitsQuotes entry.1) (hvalue : FitsQuotes entry.2)
include hkey hvalue

/-- Past a quoted entry nothing is open. -/
theorem past_quotedEntry : Nesting.top.past (quotedEntry entry) = .top := by
  have hvalues := Nesting.past_inQuotes hvalue
  rw [quotedEntry, Nesting.past_append, Nesting.past_inQuotes hkey]
  exact hvalues

/-- No comma counts in a quoted entry. -/
theorem isUncut_quotedEntry : IsUncut ',' .top (quotedEntry entry) := by
  have hcolon : IsUncut ',' .top [':', ' '] := isUncut_of_not_mem (by decide)
  have hvalues : IsUncut ',' .top (inQuotes entry.2) := isUncut_inQuotes (by decide) hvalue
  have hrest := isUncut_append.mpr ⟨hcolon, hvalues⟩
  refine isUncut_append.mpr ⟨isUncut_inQuotes (by decide) hkey, ?_⟩
  rw [Nesting.past_inQuotes hkey]
  exact hrest

omit hvalue in
/-- A quoted entry has its key and its value as its entry. -/
theorem hasEntry_quotedEntry : HasEntry (quotedEntry entry) entry := by
  refine ⟨inQuotes entry.1, ' ' :: inQuotes entry.2, rfl, isUncut_inQuotes (by decide) hkey, ?_, ?_⟩
  · rw [Nesting.past_inQuotes hkey]
    rfl
  · rw [Text.trim_cons rfl, trim_inQuotes, trim_inQuotes, unquote_inQuotes, unquote_inQuotes]

/-- A quoted entry has itself as its only entry, if its key is not empty. -/
theorem entriesOf?_quotedEntry (hne : entry.1 ≠ []) :
    entriesOf? (quotedEntry entry) = some [entry] := by
  have hentry := entry?_eq_some_iff.mpr ⟨hasEntry_quotedEntry hkey, hne⟩
  have hfilled : Text.isBlank (quotedEntry entry) = false := rfl
  rw [entriesOf?, splitTop_of_isUncut (isUncut_quotedEntry hkey hvalue), entries?_cons, hfilled,
    if_neg Bool.false_ne_true, hentry]
  rfl

end

/-- The entries of a body of quoted entries are these. -/
theorem entriesOf?_quotedBody {entries : List (Text × Text)}
    (h : ∀ entry ∈ entries, entry.1 ≠ [] ∧ FitsQuotes entry.1 ∧ FitsQuotes entry.2) :
    entriesOf? (quotedBody entries) = some entries := by
  induction entries with
  | nil => rfl
  | cons entry entries ih =>
    obtain ⟨⟨hne, hkey, hvalue⟩, hrest⟩ := List.forall_mem_cons.mp h
    cases entries with
    | nil =>
      have hone : quotedBody [entry] = quotedEntry entry := by simp [quotedBody, Text.join]
      rw [hone, entriesOf?_quotedEntry hkey hvalue hne]
    | cons next entries =>
      have hjoin : quotedBody (entry :: next :: entries) =
          quotedEntry entry ++ ',' :: ' ' :: quotedBody (next :: entries) := by
        simp [quotedBody, Text.join]
      have htop : (Nesting.top.past (quotedEntry entry)).isTop = true := by
        rw [past_quotedEntry hkey hvalue]
        rfl
      rw [hjoin, entriesOf?_append htop, entriesOf?_quotedEntry hkey hvalue hne, ← entriesOf?_trim,
        Text.trim_cons rfl, entriesOf?_trim, ih hrest]
      rfl

/-- Quotes protect keys and values: a body of quoted entries gives each key its value in the last of
the entries with the key, and no other key has a value. -/
theorem quoted_entries_kept {entries : List (Text × Text)}
    (h : ∀ entry ∈ entries, entry.1 ≠ [] ∧ FitsQuotes entry.1 ∧ FitsQuotes entry.2) (key : Text) :
    (ofBody (quotedBody entries)).get? key =
      ((entries.filter fun entry => entry.1 = key).map (·.2)).getLast? := by
  rw [ofBody_of_entriesOf? (entriesOf?_quotedBody h), Dictionary.get?_ofList_eq_getLast?]

/-- Entries with separators in their keys and values, one key twice. -/
def specimen : List (Text × Text) :=
  [("a,".toList, "x: \x7b(".toList), (" b".toList, "\n@".toList), ("a,".toList, " y ]".toList)]

/-- Of the two values of a key the later one is kept, with the blank before it. -/
theorem quoted_entries_kept_specimen :
    (∀ entry ∈ specimen, entry.1 ≠ [] ∧ FitsQuotes entry.1 ∧ FitsQuotes entry.2) ∧
      (ofBody (quotedBody specimen)).get? "a,".toList = some " y ]".toList :=
  have h : ∀ entry ∈ specimen, entry.1 ≠ [] ∧ FitsQuotes entry.1 ∧ FitsQuotes entry.2 := by decide
  ⟨h, (quoted_entries_kept h "a,".toList).trans (by decide)⟩

end PromptScript.Params
