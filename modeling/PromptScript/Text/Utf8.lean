import PromptScript.Text.Blank

/-!
# UTF-8

Reading text from bytes. Each character has only its shortest form, and surrogates have none.
-/

namespace PromptScript.Text

/-- The character with a number, if the number is that of a character. -/
def charOf? (n : Nat) : Option Char :=
  if h : n.isValidChar then some (Char.ofNatAux n h) else none

/-- Adds the bits of so many continuation bytes; gives the number with the bytes after them. -/
def continue? : Nat → Nat → List UInt8 → Option (Nat × List UInt8)
  | 0, n, bytes => some (n, bytes)
  | _ + 1, _, [] => none
  | count + 1, n, b :: rest =>
    if 0x80 ≤ b.toNat ∧ b.toNat < 0xC0 then continue? count (n * 64 + (b.toNat - 0x80)) rest
    else none

/-- For a leading byte: the count of continuation bytes, the bits it gives, and the least number
that needs so many bytes. -/
def lead? (n : Nat) : Option (Nat × Nat × Nat) :=
  if n < 0x80 then some (0, n, 0)
  else if n < 0xC0 then none
  else if n < 0xE0 then some (1, n - 0xC0, 0x80)
  else if n < 0xF0 then some (2, n - 0xE0, 0x800)
  else if n < 0xF8 then some (3, n - 0xF0, 0x10000)
  else none

/-- The first character of a sequence of bytes, and the bytes after it. -/
def firstChar? (b : UInt8) (rest : List UInt8) : Option (Char × List UInt8) := do
  let (count, bits, least) ← lead? b.toNat
  let (n, rest) ← continue? count bits rest
  if n < least then none else (charOf? n).map fun c => (c, rest)

/-- Continuation bytes are taken from the front, so no more bytes are left. -/
theorem length_continue?_le {count n m : Nat} {bytes rest : List UInt8}
    (h : continue? count n bytes = some (m, rest)) : rest.length ≤ bytes.length := by
  induction count generalizing n bytes with
  | zero =>
    cases h
    exact Nat.le_refl _
  | succ count ih =>
    cases bytes with
    | nil => cases h
    | cons b bytes =>
      rw [continue?] at h
      split at h
      · exact Nat.le_succ_of_le (ih h)
      · cases h

/-- A character is read from the front, so no more bytes are left. -/
theorem length_firstChar?_le {b : UInt8} {bytes rest : List UInt8} {c : Char}
    (h : firstChar? b bytes = some (c, rest)) : rest.length ≤ bytes.length := by
  simp only [firstChar?, Option.bind_eq_bind, Option.bind_eq_some_iff] at h
  obtain ⟨⟨count, bits, least⟩, -, ⟨n, after⟩, hcontinue, h⟩ := h
  dsimp only at h
  split at h
  · cases h
  · obtain ⟨_, -, heq⟩ := Option.map_eq_some_iff.mp h
    cases heq
    exact length_continue?_le hcontinue

/-- The text of a sequence of bytes; nothing if the bytes are not well formed. -/
def ofUtf8? : List UInt8 → Option Text
  | [] => some []
  | b :: rest =>
    match _h : firstChar? b rest with
    | none => none
    | some (c, after) => (ofUtf8? after).map (c :: ·)
termination_by bytes => bytes.length
decreasing_by exact Nat.lt_succ_of_le (length_firstChar?_le ‹_›)

/-- The text of a sequence of bytes, well formed or not: a byte that begins no character reads as
the replacement character. -/
def ofUtf8Lossy : List UInt8 → Text
  | [] => []
  | b :: rest =>
    match _h : firstChar? b rest with
    | none => '\uFFFD' :: ofUtf8Lossy rest
    | some (c, after) => c :: ofUtf8Lossy after
termination_by bytes => bytes.length
decreasing_by
  · exact Nat.lt_succ_self _
  · exact Nat.lt_succ_of_le (length_firstChar?_le ‹_›)

/-- Bytes as the characters of the same numbers. -/
def ofBytes (bytes : List UInt8) : Text :=
  bytes.map fun b => Char.ofNat b.toNat

/-- Characters below 256 as the bytes of the same numbers. -/
def toBytes (t : Text) : List UInt8 :=
  t.map fun c => UInt8.ofNat c.toNat

end PromptScript.Text
