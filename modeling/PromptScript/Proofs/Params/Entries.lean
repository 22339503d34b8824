import Mathlib.Data.List.Forall2
import PromptScript.Proofs.Dictionary
import PromptScript.Proofs.Params.Cuts

/-!
# Entries of bodies

A body is well formed if each of its parts that is not blank has a key before its first colon
outside quotes and brackets. Then its parameters are those of all these parts, of two values for one
key the later; any other body has none. So a comma outside quotes and brackets puts the parameters
behind it over those before it, and white space around a body makes no difference.
-/

namespace PromptScript.Params

open Text (isBlank trim unquote)

/-- Whether a part of a body has an entry: the key stands before the first colon outside quotes and
brackets and the value after it, each trimmed and without one pair of quotes around it. -/
def HasEntry (part : Text) (entry : Text × Text) : Prop :=
  ∃ key value, part = key ++ ':' :: value ∧ IsUncut ':' .top key ∧
    (Nesting.top.past key).isTop = true ∧ entry = (unquote (trim key), unquote (trim value))

/-- Whether each part of a body that is not blank has an entry whose key is not empty. -/
def IsWellFormed (body : Text) : Prop :=
  ∀ part ∈ splitTop ',' body, isBlank part = false → ∃ entry, HasEntry part entry ∧ entry.1 ≠ []

/-- A part gives the entry that it has, if the key is not empty. -/
theorem entry?_eq_some_iff {part : Text} {entry : Text × Text} :
    entry? part = some entry ↔ HasEntry part entry ∧ entry.1 ≠ [] := by
  constructor
  · intro h
    unfold entry? at h
    cases hcut : cutTop? ':' part with
    | none =>
      rw [hcut] at h
      cases h
    | some parts =>
      obtain ⟨hpart, huncut, htop⟩ := cutTop?_eq_some_iff.mp hcut
      rw [hcut] at h
      dsimp only at h
      split at h
      · cases h
      · rename_i hkey
        cases h
        exact ⟨⟨_, _, hpart, huncut, htop, rfl⟩, by simpa using hkey⟩
  · rintro ⟨⟨key, value, rfl, huncut, htop, rfl⟩, hkey⟩
    have hfilled : (unquote (trim key)).isEmpty = false := List.isEmpty_eq_false_iff.mpr hkey
    unfold entry?
    rw [cutTop?_append_cons huncut htop]
    dsimp only
    rw [hfilled, if_neg Bool.false_ne_true]

/-- The entry of a part is found by cutting it at the first colon that counts. -/
theorem entry?_eq (part : Text) : entry? part =
    ((cutTop? ':' part).map Text.trimParts).bind fun parts =>
      if (unquote parts.1).isEmpty then none else some (unquote parts.1, unquote parts.2) := by
  unfold entry?
  cases cutTop? ':' part <;> rfl

/-- White space around a part makes no difference to its entry. -/
theorem entry?_trim (part : Text) : entry? (trim part) = entry? part := by
  rw [entry?_eq, entry?_eq, cutTop?_trim rfl]

/-- The entries of parts are those of each part that is not blank, and all must have one. -/
theorem entries?_cons (part : Text) (parts : List Text) : entries? (part :: parts) =
    if isBlank part then entries? parts
    else entry? part |>.bind fun entry => (entries? parts).map (entry :: ·) := by
  have hblank : (trim part).isEmpty = isBlank part := by
    rw [Bool.eq_iff_iff, List.isEmpty_iff, Text.trim_eq_nil_iff]
  rw [entries?]
  simp only [hblank, entry?_trim]
  cases isBlank part <;> cases entry? part <;> rfl

/-- The entries of parts are one for each part that is not blank, in order. -/
theorem entries?_eq_some_iff {parts : List Text} {entries : List (Text × Text)} :
    entries? parts = some entries ↔
      List.Forall₂ (fun part entry => HasEntry part entry ∧ entry.1 ≠ [])
        (parts.filter (!isBlank ·)) entries := by
  induction parts generalizing entries with
  | nil => simp [entries?, eq_comm]
  | cons part parts ih =>
    rw [entries?_cons]
    cases hblank : isBlank part with
    | true => rw [if_pos rfl, ih, List.filter_cons_of_neg (by simp [hblank])]
    | false =>
      rw [if_neg Bool.false_ne_true, List.filter_cons_of_pos (by simp [hblank]),
        List.forall₂_cons_left_iff, Option.bind_eq_some_iff]
      simp only [entry?_eq_some_iff, Option.map_eq_some_iff, ih]
      constructor
      · rintro ⟨entry, hentry, rest, hrest, rfl⟩
        exact ⟨entry, rest, hentry, hrest, rfl⟩
      · rintro ⟨entry, rest, hentry, hrest, rfl⟩
        exact ⟨entry, hentry, rest, hrest, rfl⟩

/-- Parts have entries exactly if each that is not blank has one with a key. -/
theorem isSome_entries?_iff {parts : List Text} : (entries? parts).isSome = true ↔
    ∀ part ∈ parts, isBlank part = false → ∃ entry, HasEntry part entry ∧ entry.1 ≠ [] := by
  induction parts with
  | nil => simp [entries?]
  | cons part parts ih =>
    rw [entries?_cons, List.forall_mem_cons, ← ih]
    cases isBlank part with
    | true => simp
    | false =>
      simp only [Bool.false_eq_true, if_false, Option.isSome_bind, forall_const,
        ← entry?_eq_some_iff, ← Option.isSome_iff_exists]
      cases entry? part <;> simp

/-- Parts in a row have entries if both portions do, and have those of both. -/
theorem entries?_append (parts more : List Text) : entries? (parts ++ more) =
    (entries? parts).bind fun entries => (entries? more).map (entries ++ ·) := by
  induction parts with
  | nil => simp [entries?]
  | cons part parts ih =>
    rw [List.cons_append, entries?_cons, entries?_cons, ih]
    split
    · rfl
    · cases entry? part with
      | none => rfl
      | some entry => cases entries? parts <;> cases entries? more <;> rfl

/-- White space around parts makes no difference to their entries. -/
theorem entries?_map_trim (parts : List Text) : entries? (parts.map trim) = entries? parts := by
  induction parts with
  | nil => rfl
  | cons part parts ih => rw [List.map_cons, entries?, entries?, Text.trim_trim, ih]

/-- The entries of a body; nothing if a part that is not blank has none. -/
def entriesOf? (body : Text) : Option (List (Text × Text)) :=
  entries? (splitTop ',' body)

/-- A body is well formed exactly if its parts have entries. -/
theorem isWellFormed_iff {body : Text} : IsWellFormed body ↔ (entriesOf? body).isSome = true :=
  isSome_entries?_iff.symm

/-- The parameters of a body with entries are the dictionary of these. -/
theorem ofBody_of_entriesOf? {body : Text} {entries : List (Text × Text)}
    (h : entriesOf? body = some entries) : ofBody body = .ofList entries := by
  rw [entriesOf?] at h
  rw [ofBody, h]
  rfl

/-- A body that is not well formed has no parameters. -/
theorem ofBody_of_not_isWellFormed {body : Text} (h : ¬IsWellFormed body) : ofBody body = .empty := by
  rw [isWellFormed_iff, Bool.not_eq_true, Option.isSome_eq_false_iff, Option.isNone_iff_eq_none,
    entriesOf?] at h
  rw [ofBody, h]
  rfl

/-- Past a body that ends outside quotes and brackets, a comma divides the entries. -/
theorem entriesOf?_append {a : Text} (h : (Nesting.top.past a).isTop = true) (b : Text) :
    entriesOf? (a ++ ',' :: b) =
      (entriesOf? a).bind fun entries => (entriesOf? b).map (entries ++ ·) := by
  rw [entriesOf?, splitTop_append rfl h, entries?_append, entriesOf?, entriesOf?]

/-- White space around a body makes no difference to its entries. -/
theorem entriesOf?_trim (body : Text) : entriesOf? (trim body) = entriesOf? body := by
  rw [entriesOf?, ← entries?_map_trim, map_trim_splitTop_trim rfl, entries?_map_trim, entriesOf?]

/-- White space around a body makes no difference to its parameters. -/
theorem ofBody_trim (body : Text) : ofBody (trim body) = ofBody body :=
  congrArg (fun entries => (entries.map Dictionary.ofList).getD .empty) (entriesOf?_trim body)

/-- A body has the entries of all its parts as its parameters, or none at all. It has none if it is
not well formed, and else those of its parts that are not blank, of two for one key the later. A
comma past a body that ends outside quotes and brackets divides two bodies that are well formed if
the whole is, and what is behind it goes before what is in front of it. White space around a body
makes no difference. -/
theorem all_entries_or_none :
    (∀ body, ¬IsWellFormed body → ofBody body = .empty) ∧
    (∀ body, IsWellFormed body → ∃ entries,
      List.Forall₂ HasEntry ((splitTop ',' body).filter (!isBlank ·)) entries ∧
      ∀ key, (ofBody body).get? key =
        ((entries.filter fun entry => entry.1 = key).map (·.2)).getLast?) ∧
    (∀ a b, (Nesting.top.past a).isTop = true →
      (IsWellFormed (a ++ ',' :: b) ↔ IsWellFormed a ∧ IsWellFormed b) ∧
      (IsWellFormed (a ++ ',' :: b) → ∀ key, (ofBody (a ++ ',' :: b)).get? key =
        ((ofBody b).get? key).or ((ofBody a).get? key))) ∧
    ∀ body, ofBody (trim body) = ofBody body := by
  refine ⟨fun _ => ofBody_of_not_isWellFormed, fun body hbody => ?_, fun a b htop => ⟨?_, ?_⟩,
    ofBody_trim⟩
  · obtain ⟨entries, hentries⟩ := Option.isSome_iff_exists.mp (isWellFormed_iff.mp hbody)
    refine ⟨entries, (entries?_eq_some_iff.mp hentries).imp fun _ _ h => h.1, fun key => ?_⟩
    rw [ofBody_of_entriesOf? hentries, Dictionary.get?_ofList_eq_getLast?]
  · rw [isWellFormed_iff, isWellFormed_iff, isWellFormed_iff, entriesOf?_append htop]
    cases entriesOf? a <;> cases entriesOf? b <;> simp
  · intro hbody key
    obtain ⟨entries, hentries⟩ := Option.isSome_iff_exists.mp (isWellFormed_iff.mp hbody)
    have hboth := hentries
    rw [entriesOf?_append htop] at hboth
    obtain ⟨front, hfront, hmore⟩ := Option.bind_eq_some_iff.mp hboth
    obtain ⟨back, hback, rfl⟩ := Option.map_eq_some_iff.mp hmore
    rw [ofBody_of_entriesOf? hentries, ofBody_of_entriesOf? hfront, ofBody_of_entriesOf? hback,
      Dictionary.get?_ofList_append]

/-- One part without a colon leaves a body without parameters. A closing bracket without a partner
does not keep a comma behind it from dividing, and of two values for one key the later stays. -/
theorem all_entries_or_none_specimen :
    (¬IsWellFormed "k: 1, l".toList ∧ ofBody "k: 1, l".toList = .empty) ∧
      (Nesting.top.past "k: 1]".toList).isTop = true ∧
      IsWellFormed ("k: 1]".toList ++ ',' :: " \"k\": (2, 3) ".toList) ∧
      (ofBody ("k: 1]".toList ++ ',' :: " \"k\": (2, 3) ".toList)).get? "k".toList =
        some "(2, 3)".toList := by
  obtain ⟨hnone, -, happend, -⟩ := all_entries_or_none
  have hopen : ¬IsWellFormed "k: 1, l".toList := mt isWellFormed_iff.mp (by decide)
  have htop : (Nesting.top.past "k: 1]".toList).isTop = true := by decide
  obtain ⟨-, hget⟩ := happend "k: 1]".toList " \"k\": (2, 3) ".toList htop
  have hwhole : IsWellFormed ("k: 1]".toList ++ ',' :: " \"k\": (2, 3) ".toList) :=
    isWellFormed_iff.mpr (by decide)
  exact ⟨⟨hopen, hnone _ hopen⟩, htop, hwhole, (hget hwhole "k".toList).trans (by decide)⟩

end PromptScript.Params
