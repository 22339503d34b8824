import PromptScript.Json.Record
import PromptScript.Proofs.Json.Transcription
import PromptScript.Proofs.Text.Utf8

/-!
# JSON texts read from bytes

A text that was read from bytes which were not decoded has a tree with bytes between its quotes.
Values and records are found in it by decoding these bytes, and they are those of the text itself.
-/

namespace PromptScript.Json

section

variable (string? : Unquoting) (f : Text → Text)

mutual

/-- A tree with other texts between the quotes has the value that these texts give it. -/
theorem value?_map (depth : Nat) : (tree : Tree) →
    (tree.map f).value? string? depth = tree.value? (fun t => string? (f t)) depth
  | .null => rfl
  | .bool _ => rfl
  | .number _ => rfl
  | .string _ => rfl
  | .array items => by
    rw [Tree.map, Tree.value?, Tree.value?, itemValues?_map (depth - 1) items]
  | .object members => by
    rw [Tree.map, Tree.value?, Tree.value?, memberValues?_map (depth - 1) members]

/-- The values of items with other texts between the quotes are found by first changing the texts.
-/
theorem itemValues?_map (depth : Nat) : (items : List Tree) →
    itemValues? string? depth (mapItems f items) =
      itemValues? (fun t => string? (f t)) depth items
  | [] => rfl
  | tree :: rest => by
    rw [mapItems, itemValues?, itemValues?, value?_map depth tree, itemValues?_map depth rest]

/-- The values of members with other texts between the quotes are found by first changing the texts.
-/
theorem memberValues?_map (depth : Nat) : (members : List (Text × Tree)) →
    memberValues? string? depth (mapMembers f members) =
      memberValues? (fun t => string? (f t)) depth members
  | [] => rfl
  | (name, tree) :: rest => by
    rw [mapMembers, memberValues?, memberValues?, value?_map depth tree,
      memberValues?_map depth rest]

end

end

/-- A byte is the number of its character. -/
theorem toNat_ofNat_byte (b : UInt8) : (Char.ofNat b.toNat).toNat = b.toNat := by
  have hvalid : b.toNat.isValidChar := .inl (Nat.lt_trans b.toNat_lt (by decide))
  rw [Char.ofNat, dif_pos hvalid]
  rfl

/-- Each character as the characters of its bytes. -/
def Transcription.bytes : Transcription where
  write c := Text.ofBytes (String.utf8EncodeChar c)
  ascii c hc := by
    rw [Text.utf8EncodeChar_ascii hc, Text.ofBytes, List.map_singleton,
      Text.toNat_ofNat (Nat.lt_trans hc (by decide)), Char.ofNat_toNat]
  high c hc d hd := by
    obtain ⟨b, hb, rfl⟩ := List.mem_map.mp hd
    rw [toNat_ofNat_byte]
    exact Text.le_of_mem_utf8EncodeChar hc hb
  ne_nil c := by
    rw [Text.ofBytes, Ne, List.map_eq_nil_iff]
    exact String.utf8EncodeChar_ne_nil

end PromptScript.Json
