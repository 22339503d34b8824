import Mathlib.Algebra.Group.Int.Defs
import Mathlib.Algebra.Group.Nat.Defs
import Mathlib.Tactic.SplitIfs
import PromptScript.Json.Printer
import PromptScript.Json.Reader

/-!
# Strings and integers of JSON texts

What is printed for a string or an integer is read back, whatever stands after it. A string is read
in two steps: up to its closing quote with its escapes checked for their form, and then unescaped.
-/

namespace PromptScript.Json

/-- The escape of a control character without a short escape names the character. -/
theorem hexUnit?_hexDigit {n : Nat} (h : n < 32) :
    hexUnit? '0' '0' (hexDigit (n / 16)) (hexDigit (n % 16)) = some n := by
  have hall : ∀ n < 32, hexUnit? '0' '0' (hexDigit (n / 16)) (hexDigit (n % 16)) = some n := by
    decide
  exact hall n h

/-- A character is that of its number. -/
theorem charOf?_toNat (c : Char) : Text.charOf? c.toNat = some c := by
  have hvalid : c.toNat.isValidChar := c.valid
  rw [Text.charOf?, dif_pos hvalid]
  exact congrArg some (Char.ext rfl)

/-- The ways to write a character in a string. -/
inductive Escapes : Char → Text → Prop
  | short {mark : Char} (hmark : mark ∈ "\"\\/bfnrt".toList) :
      Escapes (shortEscape mark) ['\\', mark]
  | control {c : Char} (hc : c.toNat < 32) :
      Escapes c ['\\', 'u', '0', '0', hexDigit (c.toNat / 16), hexDigit (c.toNat % 16)]
  | plain {c : Char} (hc : 32 ≤ c.toNat) (hquote : c ≠ '"') (hslash : c ≠ '\\') : Escapes c [c]

/-- What is printed for a character is a way to write it. -/
theorem escapes_escape (c : Char) : Escapes c (escape c) := by
  have hcode {d : Char} (h : c.toNat = d.toNat) : c = d := Char.ext (UInt32.toNat_inj.mp h)
  have hshort {mark : Char} (hmark : mark ∈ "\"\\/bfnrt".toList) (hc : c = shortEscape mark) :
      Escapes c ['\\', mark] := hc ▸ .short hmark
  unfold escape
  split_ifs with hquote hslash hbreak hreturn htab hback hfeed hcontrol
  · exact hshort (by decide) hquote
  · exact hshort (by decide) hslash
  · exact hshort (by decide) hbreak
  · exact hshort (by decide) hreturn
  · exact hshort (by decide) htab
  · exact hshort (by decide) (hcode hback)
  · exact hshort (by decide) (hcode hfeed)
  · exact .control hcontrol
  · exact .plain (Nat.le_of_not_lt hcontrol) hquote hslash

namespace Escapes

variable {c : Char} {written : Text}

/-- The escape of a character is taken whole. -/
theorem readEscaped?_append (h : Escapes c written) (t : Text) :
    readEscaped? (written ++ t) =
      (readEscaped? t).map fun parts => (written ++ parts.1, parts.2) := by
  cases h with
  | @short mark hmark =>
    have hlead : mark ≠ 'u' := by
      rintro rfl
      exact absurd hmark (by decide)
    rw [List.cons_append, List.cons_append, List.nil_append, readEscaped?, if_pos]
    · rfl
    · simpa using hmark
    · simp [hlead]
  | control hc =>
    have hunit := hexUnit?_hexDigit hc
    simp only [List.cons_append, List.nil_append, readEscaped?, hunit, Option.isSome_some, if_true]
  | plain hc hquote hslash =>
    have hplain : ¬(c.toNat < 32 ∨ c = '\\') := by simp [hslash, hc]
    rw [List.cons_append, List.nil_append, readEscaped?, if_neg hplain]
    · rfl
    all_goals simp [hquote, hslash]

/-- The escape of a character stands for the character. -/
theorem unescape?_append (h : Escapes c written) (t : Text) :
    unescape? (written ++ t) = (unescape? t).map (c :: ·) := by
  cases h with
  | @short mark hmark =>
    have hlead : mark ≠ 'u' := by
      rintro rfl
      exact absurd hmark (by decide)
    rw [List.cons_append, List.cons_append, List.nil_append, unescape?]
    simp [hlead]
  | control hc =>
    have hunit := hexUnit?_hexDigit hc
    have hlow : ¬(0xD800 ≤ c.toNat ∧ c.toNat < 0xDC00) := by omega
    simp only [List.cons_append, List.nil_append, unescape?, hunit, Option.bind_eq_bind,
      Option.bind_some, if_neg hlow, charOf?_toNat]
  | plain hc hquote hslash =>
    rw [List.cons_append, List.nil_append, unescape?]
    all_goals simp [hslash]

end Escapes

/-- The inside of a printed string is taken up to the quote that closes it. -/
theorem readEscaped?_escape (t rest : Text) :
    readEscaped? (t.flatMap escape ++ '"' :: rest) = some (t.flatMap escape, rest) := by
  induction t with
  | nil => rfl
  | cons c t ih =>
    rw [List.flatMap_cons, List.append_assoc, (escapes_escape c).readEscaped?_append, ih]
    rfl

/-- The inside of a printed string stands for the text. -/
theorem unescape?_escape (t : Text) : unescape? (t.flatMap escape) = some t := by
  induction t with
  | nil => rfl
  | cons c t ih =>
    rw [List.flatMap_cons, (escapes_escape c).unescape?_append, ih]
    rfl

/-- Whether a numeral ends where a text begins. -/
def EndsNumeral (t : Text) : Prop :=
  ∀ c ∈ t.head?, c.isDigit = false ∧ c ≠ '.' ∧ c ≠ 'e' ∧ c ≠ 'E'

/-- The integers of 64 bits, without a sign or with one. -/
def IsWord (n : Int) : Prop :=
  -(2 ^ 63) ≤ n ∧ n ≤ maxWord

/-- A number is printed in digits. -/
theorem isDigit_of_mem_ofNat {n : Nat} {c : Char} (hc : c ∈ Text.ofNat n) : c.isDigit = true :=
  Nat.isDigit_of_mem_toDigits (by decide) (by decide) hc

/-- Only zero is written with a leading zero. -/
theorem head?_ofNat {n : Nat} (h : 0 < n) : (Text.ofNat n).head? ≠ some '0' := by
  induction n using Nat.strongRecOn with
  | _ n ih =>
    rw [Text.ofNat, Nat.toDigits_eq_if (by decide)]
    split
    · rename_i hlt
      have hall : ∀ m < 10, 0 < m → m.digitChar ≠ '0' := by decide
      simpa using hall n hlt h
    · rw [List.head?_append, Option.or_of_isSome (by simp)]
      exact ih (n / 10) (by omega) (by omega)

/-- Digits are split off up to what is no digit. -/
theorem splitDigits_append {digits rest : Text} (hdigits : ∀ c ∈ digits, c.isDigit = true)
    (hrest : ∀ c ∈ rest.head?, c.isDigit = false) :
    splitDigits (digits ++ rest) = (digits, rest) := by
  have hstop : rest.takeWhile Char.isDigit = [] ∧ rest.dropWhile Char.isDigit = rest := by
    cases rest with
    | nil => exact ⟨rfl, rfl⟩
    | cons c rest =>
      have hc := hrest c rfl
      simp [hc]
  rw [splitDigits, List.takeWhile_append_of_pos hdigits, List.dropWhile_append_of_pos hdigits,
    hstop.1, hstop.2, List.append_nil]

/-- The digits of a number are taken whole. -/
theorem readWhole?_ofNat (n : Nat) {rest : Text} (hrest : EndsNumeral rest) :
    readWhole? (Text.ofNat n ++ rest) = some (Text.ofNat n, rest) := by
  rcases Nat.eq_zero_or_pos n with rfl | hpos
  · rfl
  · have hsplit : splitDigits (Text.ofNat n ++ rest) = (Text.ofNat n, rest) :=
      splitDigits_append (fun c => isDigit_of_mem_ofNat) fun c hc => (hrest c hc).1
    have hhead := head?_ofNat hpos
    cases hdigits : Text.ofNat n with
    | nil => exact absurd hdigits Nat.toDigits_ne_nil
    | cons c digits =>
      rw [hdigits] at hsplit hhead
      have hc : c.isDigit = true := isDigit_of_mem_ofNat (hdigits ▸ List.mem_cons_self)
      have hzero : c ≠ '0' := by simpa using hhead
      rw [List.cons_append] at hsplit ⊢
      rw [readWhole?, if_pos hc, hsplit]
      simpa using hzero

/-- There is no fraction where the numeral ends. -/
theorem readFraction?_of_ends {rest : Text} (h : EndsNumeral rest) :
    readFraction? rest = some (none, rest) := by
  cases rest with
  | nil => rfl
  | cons c rest =>
    have hc := (h c rfl).2.1
    rw [readFraction?]
    simpa using hc

/-- There is no exponent where the numeral ends. -/
theorem readExponent?_of_ends {rest : Text} (h : EndsNumeral rest) :
    readExponent? rest = some (none, rest) := by
  cases rest with
  | nil => rfl
  | cons c rest =>
    obtain ⟨-, -, hlower, hupper⟩ := h c rfl
    rw [readExponent?]
    · simpa using hlower
    · simpa using hupper

/-- Further digits do not make a number smaller. -/
theorem le_ofDigitChars (digits : Text) (s : Nat) : s ≤ Nat.ofDigitChars 10 digits s := by
  rw [Nat.ofDigitChars_eq_ofDigitChars_zero]
  have hpow := Nat.le_mul_of_pos_left s (Nat.pow_pos (n := digits.length) (show 0 < 10 by decide))
  omega

/-- A digit is taken while the number stays within 64 bits. -/
theorem pushDigit?_eq {s : Nat} {c : Char} (h : 10 * s + (c.toNat - '0'.toNat) ≤ maxWord) :
    pushDigit? s c = some (10 * s + (c.toNat - '0'.toNat)) := by
  have hnext : s * 10 + digitValue c = 10 * s + (c.toNat - '0'.toNat) := by
    rw [digitValue, Nat.mul_comm]
  have hpush : pushDigit? s c =
      if s * 10 + digitValue c ≤ maxWord then some (s * 10 + digitValue c) else none := rfl
  rw [hpush, hnext, if_pos h]

/-- Digits are taken one by one until one is too many. -/
theorem takeDigits_cons (s : Nat) (c : Char) (digits : Text) :
    takeDigits s (c :: digits) =
      match pushDigit? s c with
      | some next => takeDigits next digits
      | none => (s, c :: digits) := by
  rfl

/-- Digits whose number has 64 bits are all taken into the significand. -/
theorem takeDigits_eq {digits : Text} {s : Nat} (h : Nat.ofDigitChars 10 digits s ≤ maxWord) :
    takeDigits s digits = (Nat.ofDigitChars 10 digits s, []) := by
  induction digits generalizing s with
  | nil => rfl
  | cons c digits ih =>
    rw [Nat.ofDigitChars_cons] at h
    have hpush := pushDigit?_eq (Nat.le_trans (le_ofDigitChars digits _) h)
    rw [takeDigits_cons, hpush, Nat.ofDigitChars_cons]
    exact ih h

/-- The digits of a number of 64 bits make up its significand. -/
theorem takeDigits_ofNat {n : Nat} (h : n ≤ maxWord) : takeDigits 0 (Text.ofNat n) = (n, []) := by
  have hvalue : Nat.ofDigitChars 10 (Text.ofNat n) 0 = n := Nat.ofDigitChars_ten_toDigits
  rw [takeDigits_eq (by rw [hvalue]; exact h), hvalue]

/-- The numeral whose sign was read and whose parts begin a text, and the text after it. -/
def readParts? (negative : Bool) (t : Text) : Option (Numeral × Text) := do
  let (whole, t) ← readWhole? t
  let (fraction, t) ← readFraction? t
  let (exponent, t) ← readExponent? t
  some (⟨negative, whole, fraction, exponent⟩, t)

/-- A numeral without a sign is read from its first digit on. -/
theorem readNumeral?_plain {t : Text} (h : ∀ rest, t ≠ '-' :: rest) :
    readNumeral? t = readParts? false t := by
  rw [readNumeral?]
  · rfl
  · exact h

/-- A minus sign, if there is one, and the digits of a number are read as a numeral. -/
theorem readNumeral?_append (negative : Bool) (n : Nat) {rest : Text} (hrest : EndsNumeral rest) :
    readNumeral? ((if negative then ['-'] else []) ++ Text.ofNat n ++ rest) =
      some (⟨negative, Text.ofNat n, none, none⟩, rest) := by
  have hparts : readParts? negative (Text.ofNat n ++ rest) =
      some (⟨negative, Text.ofNat n, none, none⟩, rest) := by
    simp only [readParts?, readWhole?_ofNat n hrest, readFraction?_of_ends hrest,
      readExponent?_of_ends hrest, Option.bind_eq_bind, Option.bind_some]
  cases negative with
  | true => exact hparts
  | false =>
    cases hdigits : Text.ofNat n with
    | nil => exact absurd hdigits Nat.toDigits_ne_nil
    | cons c digits =>
      have hc : c.isDigit = true := isDigit_of_mem_ofNat (hdigits ▸ List.mem_cons_self)
      have hsign : c ≠ '-' := by
        rintro rfl
        cases hc
      rw [hdigits] at hparts
      exact (readNumeral?_plain fun _ heq => hsign (List.cons.inj heq).1).trans hparts

/-- A printed integer begins with a sign or a digit. -/
theorem exists_renderInt (n : Int) :
    ∃ c t, renderInt n = c :: t ∧ (c.isDigit = true ∨ c = '-') := by
  cases hdigits : Text.ofNat n.natAbs with
  | nil => exact absurd hdigits Nat.toDigits_ne_nil
  | cons c digits =>
    have hc : c.isDigit = true := isDigit_of_mem_ofNat (hdigits ▸ List.mem_cons_self)
    rw [renderInt, hdigits]
    split
    · exact ⟨'-', c :: digits, rfl, Or.inr rfl⟩
    · exact ⟨c, digits, rfl, Or.inl hc⟩

/-- A printed integer of 64 bits is read back. -/
theorem readNumeral?_renderInt {n : Int} (h : IsWord n) {rest : Text} (hrest : EndsNumeral rest) :
    ∃ numeral, readNumeral? (renderInt n ++ rest) = some (numeral, rest) ∧
      numeral.number? = some (.int n) := by
  obtain ⟨hlow, hhigh⟩ := h
  have hsigned : (1 <<< 63 : Nat) ≤ maxWord := by decide
  rcases Int.lt_or_le n 0 with hneg | hpos
  · have hbound : n.natAbs ≤ 1 <<< 63 := by
      have hshift : (1 <<< 63 : Nat) = 2 ^ 63 := by decide
      omega
    refine ⟨⟨true, Text.ofNat n.natAbs, none, none⟩, ?_, ?_⟩
    · rw [renderInt, if_pos hneg]
      exact readNumeral?_append true _ hrest
    · have hne : n.natAbs ≠ 0 := by omega
      have hvalue : -(n.natAbs : Int) = n := by omega
      rw [Numeral.number?, takeDigits_ofNat (Nat.le_trans hbound hsigned)]
      simp only [Bool.not_true, Bool.false_eq_true, if_false, if_neg hne, if_pos hbound, hvalue]
  · refine ⟨⟨false, Text.ofNat n.natAbs, none, none⟩, ?_, ?_⟩
    · rw [renderInt, if_neg (Int.not_lt.mpr hpos)]
      exact readNumeral?_append false _ hrest
    · have hvalue : (n.natAbs : Int) = n := by omega
      rw [Numeral.number?, takeDigits_ofNat (by omega)]
      simp only [Bool.not_false, if_true, hvalue]

end PromptScript.Json
