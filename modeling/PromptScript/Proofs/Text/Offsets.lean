import PromptScript.Proofs.Text.Utf8

/-!
# Byte offsets

A text can be cut at an offset in bytes only where a character ends. Cutting, slicing and
subtracting are checked: they give nothing if the offset is out of range, if it is inside a
character, or if the difference would be negative.
-/

namespace PromptScript

/-- The difference of two numbers, if it is one. -/
def sub? (a b : Nat) : Option Nat :=
  if b ≤ a then some (a - b) else none

/-- A difference that is not negative is a number. -/
theorem sub?_of_le {a b : Nat} (h : b ≤ a) : sub? a b = some (a - b) :=
  if_pos h

/-- A part of a sum can be taken from it. -/
@[simp] theorem sub?_add (a b : Nat) : sub? (a + b) a = some b := by
  rw [sub?_of_le (Nat.le_add_right a b), Nat.add_sub_cancel_left]

/-- A checked difference is what makes up the first number with the second. -/
theorem sub?_eq_some_iff {a b n : Nat} : sub? a b = some n ↔ a = b + n := by
  rw [sub?]
  split <;> simp only [Option.some.injEq, reduceCtorEq, false_iff] <;> omega

namespace Text

/-- The number of bytes of a text. -/
def byteLength (t : Text) : Nat :=
  (utf8 t).length

@[simp] theorem byteLength_nil : byteLength [] = 0 := rfl

@[simp] theorem byteLength_cons (c : Char) (t : Text) :
    byteLength (c :: t) = c.utf8Size + byteLength t := by
  simp [byteLength]

/-- The bytes of two texts in a row add up. -/
@[simp] theorem byteLength_append (s t : Text) :
    byteLength (s ++ t) = byteLength s + byteLength t := by
  simp [byteLength]

/-- A text that is not empty has a byte. -/
theorem byteLength_pos {t : Text} (h : t ≠ []) : 0 < byteLength t := by
  cases t with
  | nil => exact absurd rfl h
  | cons c t =>
    have hsize := c.utf8Size_pos
    rw [byteLength_cons]
    omega

/-- The text before a byte offset and the text after it. -/
def splitBytes? (offset : Nat) : Text → Option (Text × Text)
  | [] => if offset = 0 then some ([], []) else none
  | c :: rest =>
    if offset = 0 then some ([], c :: rest)
    else do
      let left ← sub? offset c.utf8Size
      let (before, after) ← splitBytes? left rest
      some (c :: before, after)

/-- The text between two byte offsets. -/
def slice? (t : Text) (start stop : Nat) : Option Text := do
  let (upTo, _) ← splitBytes? stop t
  let (_, between) ← splitBytes? start upTo
  some between

/-- A text cut off so that so many bytes are left. One that has no more bytes than that stays as it
is. -/
def truncate? (t : Text) (length : Nat) : Option Text :=
  if length ≤ byteLength t then (splitBytes? length t).map (·.1) else some t

/-- A text is cut at an offset exactly if it is two texts and the first has so many bytes. -/
theorem splitBytes?_eq_some_iff {offset : Nat} {t a b : Text} :
    splitBytes? offset t = some (a, b) ↔ t = a ++ b ∧ byteLength a = offset := by
  induction t generalizing offset a b with
  | nil =>
    rw [splitBytes?]
    constructor
    · intro h
      split at h
      · rename_i hzero
        cases h
        exact ⟨rfl, hzero.symm⟩
      · cases h
    · rintro ⟨hnil, rfl⟩
      obtain ⟨rfl, rfl⟩ := List.append_eq_nil_iff.mp hnil.symm
      rfl
  | cons c rest ih =>
    rw [splitBytes?]
    split
    · rename_i hzero
      subst hzero
      constructor
      · intro h
        cases h
        exact ⟨rfl, rfl⟩
      · rintro ⟨hjoin, hlength⟩
        cases a with
        | nil => rw [hjoin]; rfl
        | cons d a => exact absurd hlength (Nat.ne_of_gt (byteLength_pos (List.cons_ne_nil d a)))
    · rename_i hpos
      simp only [Option.bind_eq_bind, Option.bind_eq_some_iff, sub?_eq_some_iff, Prod.exists, ih,
        Option.some.injEq, Prod.mk.injEq]
      constructor
      · rintro ⟨left, rfl, a, b, ⟨rfl, rfl⟩, rfl, rfl⟩
        exact ⟨rfl, byteLength_cons c a⟩
      · rintro ⟨hjoin, rfl⟩
        cases a with
        | nil => exact absurd rfl hpos
        | cons d a =>
          obtain ⟨rfl, rfl⟩ := List.cons.inj hjoin
          exact ⟨byteLength a, byteLength_cons c a, a, b, ⟨rfl, rfl⟩, rfl, rfl⟩

/-- A text can be cut off where the first of two parts ends. -/
theorem truncate?_append (a b : Text) : truncate? (a ++ b) (byteLength a) = some a := by
  have hsplit : splitBytes? (byteLength a) (a ++ b) = some (a, b) :=
    splitBytes?_eq_some_iff.mpr ⟨rfl, rfl⟩
  have hle : byteLength a ≤ byteLength (a ++ b) :=
    Nat.le_trans (Nat.le_add_right _ _) (Nat.le_of_eq (byteLength_append a b).symm)
  rw [truncate?, if_pos hle, hsplit]
  rfl

/-- A slice is a part of the text that begins and ends at the offsets. -/
theorem slice?_eq_some_iff {start stop : Nat} {t s : Text} :
    slice? t start stop = some s ↔
      ∃ a b, t = a ++ s ++ b ∧ byteLength a = start ∧ byteLength (a ++ s) = stop := by
  simp only [slice?, Option.bind_eq_bind, Option.bind_eq_some_iff, splitBytes?_eq_some_iff,
    Prod.exists, Option.some.injEq]
  constructor
  · rintro ⟨upTo, b, ⟨rfl, hstop⟩, a, _, ⟨rfl, hstart⟩, rfl⟩
    exact ⟨a, b, rfl, hstart, hstop⟩
  · rintro ⟨a, b, rfl, hstart, hstop⟩
    exact ⟨a ++ s, b, ⟨rfl, hstop⟩, a, s, ⟨rfl, hstart⟩, rfl⟩

/-- The part between two others is a slice. -/
theorem slice?_append (a s b : Text) :
    slice? (a ++ s ++ b) (byteLength a) (byteLength a + byteLength s) = some s :=
  slice?_eq_some_iff.mpr ⟨a, b, rfl, rfl, byteLength_append a s⟩

/-- The text before an offset is a slice. -/
theorem slice?_zero (a b : Text) : slice? (a ++ b) 0 (byteLength a) = some a :=
  slice?_eq_some_iff.mpr ⟨[], b, rfl, rfl, rfl⟩

end Text

end PromptScript
