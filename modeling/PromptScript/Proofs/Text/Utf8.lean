import PromptScript.Text.Utf8

/-!
# The encoding of a text

The bytes of a text are those of its characters in their order. Reading is the inverse: bytes are
read as a text exactly if they are the bytes of that text, so well-formed bytes are the bytes of
texts and no text has the bytes of another.
-/

namespace PromptScript.Text

/-- The bytes of a text. -/
def utf8 (t : Text) : List UInt8 :=
  t.flatMap String.utf8EncodeChar

@[simp] theorem utf8_nil : utf8 [] = [] := rfl

@[simp] theorem utf8_cons (c : Char) (t : Text) :
    utf8 (c :: t) = String.utf8EncodeChar c ++ utf8 t := rfl

/-- The bytes of two texts in a row are those of the one and then those of the other. -/
@[simp] theorem utf8_append (s t : Text) : utf8 (s ++ t) = utf8 s ++ utf8 t :=
  List.flatMap_append

/-- A number below 256 is that of its byte. -/
theorem toNat_ofNat {n : Nat} (h : n < 256) : (UInt8.ofNat n).toNat = n :=
  UInt8.toNat_ofNat_of_lt' h

/-- An ASCII character is one byte. -/
theorem utf8EncodeChar_ascii {c : Char} (hc : c.toNat < 128) :
    String.utf8EncodeChar c = [UInt8.ofNat c.toNat] :=
  if_pos (Nat.le_of_lt_succ hc)

/-- The bytes of other characters are not ASCII. -/
theorem le_of_mem_utf8EncodeChar {c : Char} (hc : 128 ≤ c.toNat) {b : UInt8}
    (hb : b ∈ String.utf8EncodeChar c) : 128 ≤ b.toNat := by
  have hhigh : ¬ c.val.toNat ≤ 0x7f := Nat.not_le.mpr hc
  simp only [String.utf8EncodeChar, if_neg hhigh] at hb
  -- each byte is a marker with some bits of the character
  split at hb
  · simp only [List.mem_cons, List.not_mem_nil, or_false] at hb
    rcases hb with rfl | rfl <;> rw [toNat_ofNat (by omega)] <;> omega
  · split at hb
    · simp only [List.mem_cons, List.not_mem_nil, or_false] at hb
      rcases hb with rfl | rfl | rfl <;> rw [toNat_ofNat (by omega)] <;> omega
    · simp only [List.mem_cons, List.not_mem_nil, or_false] at hb
      rcases hb with rfl | rfl | rfl | rfl <;> rw [toNat_ofNat (by omega)] <;> omega

/-- Every character has its number, and no other number gives it. -/
theorem charOf?_eq_some_iff {n : Nat} {c : Char} : charOf? n = some c ↔ c.toNat = n := by
  by_cases hvalid : n.isValidChar
  · rw [charOf?, dif_pos hvalid]
    constructor
    · rintro ⟨⟩
      rfl
    · rintro rfl
      rfl
  · rw [charOf?, dif_neg hvalid]
    constructor
    · rintro ⟨⟩
    · rintro rfl
      exact absurd c.valid hvalid

/-- A continuation byte adds six bits. -/
theorem continue?_succ_eq_some_iff {count n m : Nat} {bytes rest : List UInt8} :
    continue? (count + 1) n bytes = some (m, rest) ↔ ∃ b after, bytes = b :: after ∧
      0x80 ≤ b.toNat ∧ b.toNat < 0xC0 ∧
        continue? count (n * 64 + (b.toNat - 0x80)) after = some (m, rest) := by
  cases bytes with
  | nil => simp [continue?]
  | cons b after =>
    rw [continue?]
    constructor
    · intro h
      split at h
      · exact ⟨b, after, rfl, ‹_ ∧ _›.1, ‹_ ∧ _›.2, h⟩
      · cases h
    · rintro ⟨_, _, heq, hlow, hhigh, h⟩
      cases heq
      rwa [if_pos ⟨hlow, hhigh⟩]

/-- Without continuation bytes nothing is read and nothing is added. -/
theorem continue?_zero_eq_some_iff {n m : Nat} {bytes rest : List UInt8} :
    continue? 0 n bytes = some (m, rest) ↔ n = m ∧ bytes = rest := by
  simp [continue?]

/-- A character is read from its leading byte, its continuation bytes and their bits. -/
theorem firstChar?_eq_some_iff_continue {b : UInt8} {rest after : List UInt8} {c : Char} :
    firstChar? b rest = some (c, after) ↔ ∃ count bits least,
      lead? b.toNat = some (count, bits, least) ∧
        continue? count bits rest = some (c.toNat, after) ∧ least ≤ c.toNat := by
  simp only [firstChar?, Option.bind_eq_bind, Option.bind_eq_some_iff, Prod.exists]
  constructor
  · rintro ⟨count, bits, least, hlead, n, _, hcontinue, h⟩
    split at h
    · cases h
    · obtain ⟨_, hchar, heq⟩ := Option.map_eq_some_iff.mp h
      cases heq
      obtain rfl := charOf?_eq_some_iff.mp hchar
      exact ⟨count, bits, least, hlead, hcontinue, Nat.le_of_not_lt ‹_›⟩
  · rintro ⟨count, bits, least, hlead, hcontinue, hleast⟩
    refine ⟨count, bits, least, hlead, c.toNat, after, hcontinue, ?_⟩
    rw [if_neg (Nat.not_lt.mpr hleast), charOf?_eq_some_iff.mpr rfl]
    rfl

/-- A byte is known by its number. -/
theorem eq_ofNat_iff {b : UInt8} {n : Nat} (h : n < 256) : b = UInt8.ofNat n ↔ b.toNat = n := by
  rw [← UInt8.toNat_inj, UInt8.toNat_ofNat_of_lt' h]

/-- The four kinds of leading bytes, each with the marker in front of its bits. -/
theorem lead?_eq_some_iff {n count bits least : Nat} :
    lead? n = some (count, bits, least) ↔
      count = 0 ∧ least = 0 ∧ n = bits ∧ bits < 0x80 ∨
      count = 1 ∧ least = 0x80 ∧ n = 0xC0 + bits ∧ bits < 0x20 ∨
      count = 2 ∧ least = 0x800 ∧ n = 0xE0 + bits ∧ bits < 0x10 ∨
      count = 3 ∧ least = 0x10000 ∧ n = 0xF0 + bits ∧ bits < 0x08 := by
  unfold lead?
  repeat' split
  all_goals simp only [Option.some.injEq, Prod.mk.injEq, reduceCtorEq, false_iff]
  all_goals omega

/-- The numbers of characters end at U+10FFFF. -/
theorem toNat_lt (c : Char) : c.toNat < 0x110000 := by
  rcases c.valid with h | h
  · exact Nat.lt_trans h (by decide)
  · exact h.2

/-- A character that is read has its bytes in front. -/
theorem eq_append_of_firstChar? {b : UInt8} {rest after : List UInt8} {c : Char}
    (h : firstChar? b rest = some (c, after)) : b :: rest = String.utf8EncodeChar c ++ after := by
  have hb := b.toNat_lt
  have hc := toNat_lt c
  obtain ⟨count, bits, least, hlead, hcontinue, hleast⟩ := firstChar?_eq_some_iff_continue.mp h
  simp only [String.utf8EncodeChar, show c.val.toNat = c.toNat from rfl]
  generalize c.toNat = v at *
  obtain ⟨rfl, rfl, hn, _⟩ | ⟨rfl, rfl, hn, _⟩ | ⟨rfl, rfl, hn, _⟩ | ⟨rfl, rfl, hn, _⟩ :=
    lead?_eq_some_iff.mp hlead
  · obtain ⟨rfl, rfl⟩ := continue?_zero_eq_some_iff.mp hcontinue
    rw [if_pos (by omega)]
    simp (disch := omega) only [List.cons_append, List.nil_append, List.cons.injEq, eq_ofNat_iff,
      and_true]
    omega
  · obtain ⟨x, _, rfl, _, _, h⟩ := continue?_succ_eq_some_iff.mp hcontinue
    obtain ⟨hv, rfl⟩ := continue?_zero_eq_some_iff.mp h
    rw [if_neg (by omega), if_pos (by omega)]
    simp (disch := omega) only [List.cons_append, List.nil_append, List.cons.injEq, eq_ofNat_iff,
      and_true]
    omega
  · obtain ⟨x, _, rfl, _, _, h⟩ := continue?_succ_eq_some_iff.mp hcontinue
    obtain ⟨y, _, rfl, _, _, h⟩ := continue?_succ_eq_some_iff.mp h
    obtain ⟨hv, rfl⟩ := continue?_zero_eq_some_iff.mp h
    rw [if_neg (by omega), if_neg (by omega), if_pos (by omega)]
    simp (disch := omega) only [List.cons_append, List.nil_append, List.cons.injEq, eq_ofNat_iff,
      and_true]
    omega
  · obtain ⟨x, _, rfl, _, _, h⟩ := continue?_succ_eq_some_iff.mp hcontinue
    obtain ⟨y, _, rfl, _, _, h⟩ := continue?_succ_eq_some_iff.mp h
    obtain ⟨z, _, rfl, _, _, h⟩ := continue?_succ_eq_some_iff.mp h
    obtain ⟨hv, rfl⟩ := continue?_zero_eq_some_iff.mp h
    rw [if_neg (by omega), if_neg (by omega), if_neg (by omega)]
    simp (disch := omega) only [List.cons_append, List.nil_append, List.cons.injEq, eq_ofNat_iff,
      and_true]
    omega

/-- The character whose bytes stand in front is read. -/
theorem firstChar?_of_eq_append {b : UInt8} {rest after : List UInt8} {c : Char}
    (h : b :: rest = String.utf8EncodeChar c ++ after) : firstChar? b rest = some (c, after) := by
  have hc := toNat_lt c
  rw [firstChar?_eq_some_iff_continue]
  simp only [String.utf8EncodeChar, show c.val.toNat = c.toNat from rfl] at h
  generalize c.toNat = v at *
  simp only [lead?_eq_some_iff]
  split at h
  · obtain ⟨rfl, rfl⟩ := List.cons.inj h
    rw [toNat_ofNat (by omega)]
    exact ⟨0, v, 0, by omega, continue?_zero_eq_some_iff.mpr ⟨rfl, rfl⟩, by omega⟩
  split at h
  · obtain ⟨rfl, rfl⟩ := List.cons.inj h
    rw [toNat_ofNat (by omega)]
    refine ⟨1, v / 64 % 32, 0x80, by omega, ?_, by omega⟩
    refine continue?_succ_eq_some_iff.mpr ⟨_, _, rfl, ?_⟩
    rw [toNat_ofNat (by omega), continue?_zero_eq_some_iff]
    exact ⟨by omega, by omega, by omega, rfl⟩
  split at h
  · obtain ⟨rfl, rfl⟩ := List.cons.inj h
    rw [toNat_ofNat (by omega)]
    refine ⟨2, v / 4096 % 16, 0x800, by omega, ?_, by omega⟩
    refine continue?_succ_eq_some_iff.mpr ⟨_, _, rfl, ?_⟩
    rw [toNat_ofNat (by omega)]
    refine ⟨by omega, by omega, continue?_succ_eq_some_iff.mpr ⟨_, _, rfl, ?_⟩⟩
    rw [toNat_ofNat (by omega), continue?_zero_eq_some_iff]
    exact ⟨by omega, by omega, by omega, rfl⟩
  · obtain ⟨rfl, rfl⟩ := List.cons.inj h
    rw [toNat_ofNat (by omega)]
    refine ⟨3, v / 262144 % 8, 0x10000, by omega, ?_, by omega⟩
    refine continue?_succ_eq_some_iff.mpr ⟨_, _, rfl, ?_⟩
    rw [toNat_ofNat (by omega)]
    refine ⟨by omega, by omega, continue?_succ_eq_some_iff.mpr ⟨_, _, rfl, ?_⟩⟩
    rw [toNat_ofNat (by omega)]
    refine ⟨by omega, by omega, continue?_succ_eq_some_iff.mpr ⟨_, _, rfl, ?_⟩⟩
    rw [toNat_ofNat (by omega), continue?_zero_eq_some_iff]
    exact ⟨by omega, by omega, by omega, rfl⟩

/-- The first character is the one whose bytes stand first. -/
theorem firstChar?_eq_some_iff {b : UInt8} {rest after : List UInt8} {c : Char} :
    firstChar? b rest = some (c, after) ↔ b :: rest = String.utf8EncodeChar c ++ after :=
  ⟨eq_append_of_firstChar?, firstChar?_of_eq_append⟩

/-- Bytes are read character by character, and all of them must be. -/
theorem ofUtf8?_cons (b : UInt8) (rest : List UInt8) :
    ofUtf8? (b :: rest) = (firstChar? b rest).bind fun parts =>
      (ofUtf8? parts.2).map (parts.1 :: ·) := by
  rw [ofUtf8?]
  split <;> rename_i h <;> rw [h] <;> rfl

/-- The bytes of a text are read as the text. -/
@[simp] theorem ofUtf8?_utf8 (t : Text) : ofUtf8? (utf8 t) = some t := by
  induction t with
  | nil => rw [utf8_nil, ofUtf8?]
  | cons c t ih =>
    obtain ⟨b, rest, hbytes⟩ := List.exists_cons_of_ne_nil (String.utf8EncodeChar_ne_nil (c := c))
    have hfirst : firstChar? b (rest ++ utf8 t) = some (c, utf8 t) :=
      firstChar?_eq_some_iff.mpr (by rw [hbytes, List.cons_append])
    rw [utf8_cons, hbytes, List.cons_append, ofUtf8?_cons, hfirst, Option.bind_some, ih]
    rfl

/-- Bytes are read as a text exactly if they are its bytes. -/
theorem ofUtf8?_eq_some_iff {bytes : List UInt8} {t : Text} :
    ofUtf8? bytes = some t ↔ bytes = utf8 t := by
  constructor
  · intro h
    induction t generalizing bytes with
    | nil =>
      cases bytes with
      | nil => rfl
      | cons b rest =>
        rw [ofUtf8?_cons, Option.bind_eq_some_iff] at h
        obtain ⟨parts, -, h⟩ := h
        simp at h
    | cons c t ih =>
      cases bytes with
      | nil =>
        rw [ofUtf8?] at h
        cases h
      | cons b rest =>
        rw [ofUtf8?_cons, Option.bind_eq_some_iff] at h
        obtain ⟨⟨_, after⟩, hfirst, h⟩ := h
        obtain ⟨_, hafter, heq⟩ := Option.map_eq_some_iff.mp h
        cases heq
        rw [utf8_cons, ← ih hafter]
        exact firstChar?_eq_some_iff.mp hfirst
  · rintro rfl
    exact ofUtf8?_utf8 t

end PromptScript.Text
