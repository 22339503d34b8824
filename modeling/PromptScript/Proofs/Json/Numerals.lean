import PromptScript.Proofs.Json.Scalars

/-!
# Numbers are written as numerals

Every number, an integer of any size or a floating point number, is written as a well formed
numeral, and a well formed numeral is read back part by part whatever stands after it. For floating
point numbers this rests on the digits of a shortest decimal: it has a digit other than zero unless
it is zero itself, so the first digit that is written is no zero before other digits.
-/

namespace PromptScript

namespace Text

/-- Digits, at least one of them. -/
def IsDigits (t : Text) : Prop :=
  t ≠ [] ∧ t.all Char.isDigit = true

/-- A number is printed in digits, at least one. -/
theorem isDigits_ofNat (n : Nat) : IsDigits (ofNat n) :=
  ⟨Nat.toDigits_ne_nil, List.all_eq_true.mpr fun _ hc => Json.isDigit_of_mem_ofNat hc⟩

/-- Digits in a row are digits, if there is one at all. -/
theorem isDigits_append {s t : Text} (hne : s ≠ [] ∨ t ≠ []) (hs : s.all Char.isDigit = true)
    (ht : t.all Char.isDigit = true) : IsDigits (s ++ t) := by
  refine ⟨?_, by rw [List.all_append, hs, ht]; rfl⟩
  rcases hne with hne | hne <;> simp [hne]

/-- Zeros are digits. -/
theorem all_isDigit_replicate (n : Nat) : (List.replicate n '0').all Char.isDigit = true :=
  List.all_eq_true.mpr fun c hc => by rw [List.eq_of_mem_replicate hc]; rfl

/-- Zeros taken from the end of digits leave digits, if there is another digit at the front. -/
theorem isDigits_trimEndChar {t : Text} (h : IsDigits t) (hhead : t.head? ≠ some '0') :
    IsDigits (trimEndChar '0' t) ∧ (trimEndChar '0' t).head? ≠ some '0' := by
  obtain ⟨hne, hall⟩ := h
  cases t with
  | nil => exact absurd rfl hne
  | cons c t =>
    have hc : c ≠ '0' := by simpa using hhead
    have hkeep : ∃ kept, trimEndChar '0' (c :: t) = c :: kept ∧ kept.Sublist t := by
      rw [trimEndChar, List.reverse_cons, List.dropWhile_append]
      split
      · refine ⟨[], ?_, List.nil_sublist t⟩
        rw [List.dropWhile_cons_of_neg (by simpa using hc)]
        rfl
      · refine ⟨(t.reverse.dropWhile (· == '0')).reverse, by rw [List.reverse_append]; rfl, ?_⟩
        have hsub := (List.dropWhile_sublist (l := t.reverse) (· == '0')).reverse
        rwa [List.reverse_reverse] at hsub
    obtain ⟨kept, heq, hsub⟩ := hkeep
    rw [heq]
    refine ⟨⟨List.cons_ne_nil c kept, ?_⟩, by simpa using hc⟩
    exact List.all_eq_true.mpr fun d hd =>
      List.all_eq_true.mp hall d ((hsub.cons_cons c).subset hd)

end Text

namespace Binary64

/-- The digits of a number that is scaled by a power of ten bound the number from below. -/
theorem pow_le_of_scaled {u e a b k : Nat} (hu : 1 ≤ u) (he : 2 ^ k ≤ Nat.pow 10 e)
    (hab : (a : Int) - b ≤ (Text.ofNat ((u * Nat.pow 10 e) >>> k)).length - e - 1) :
    10 ^ a * 2 ^ k ≤ u * 10 ^ b := by
  generalize hM : (u * Nat.pow 10 e) >>> k = M at hab
  generalize hL : (Text.ofNat M).length = L at hab
  rw [Nat.shiftRight_eq_div_pow] at hM
  have hMpos : 1 ≤ M := by
    rw [← hM]
    exact (Nat.one_le_div_iff (Nat.two_pow_pos k)).mpr
      (Nat.le_trans he (Nat.le_mul_of_pos_left _ hu))
  have hLpos : 1 ≤ L := hL ▸ List.length_pos_iff.mpr Nat.toDigits_ne_nil
  have hlow : 10 ^ (L - 1) ≤ M := by
    rcases Nat.eq_or_lt_of_le hLpos with h | h
    · rw [← h]
      exact hMpos
    · have hdigits := Nat.length_toDigits_le_iff (b := 10) (n := M) (k := L - 1) (by decide)
        (by omega)
      have hlength : (Nat.toDigits 10 M).length = L := hL
      rw [hlength] at hdigits
      refine Nat.le_of_not_lt fun hlt => ?_
      have := hdigits.mpr hlt
      omega
  have hscaled : 10 ^ (L - 1) * 2 ^ k ≤ u * Nat.pow 10 e := by
    rw [← hM] at hlow
    exact (Nat.le_div_iff_mul_le (Nat.two_pow_pos k)).mp hlow
  refine Nat.le_of_mul_le_mul_right (c := Nat.pow 10 e) ?_ (Nat.pow_pos (by decide))
  have hadd : 10 ^ (a + e) = 10 ^ a * Nat.pow 10 e := Nat.pow_add 10 a e
  calc 10 ^ a * 2 ^ k * Nat.pow 10 e
      = 10 ^ (a + e) * 2 ^ k := by rw [hadd, Nat.mul_right_comm]
    _ ≤ 10 ^ (b + (L - 1)) * 2 ^ k :=
        Nat.mul_le_mul_right _ (Nat.pow_le_pow_right (by decide) (by omega))
    _ = 10 ^ b * (10 ^ (L - 1) * 2 ^ k) := by rw [Nat.pow_add, Nat.mul_assoc]
    _ ≤ 10 ^ b * (u * Nat.pow 10 e) := Nat.mul_le_mul_left _ hscaled
    _ = u * 10 ^ b * Nat.pow 10 e := by rw [← Nat.mul_assoc, Nat.mul_comm (10 ^ b)]

/-- A number that is not zero is not below the power of ten that its decimal exponent names. -/
theorem pow_le_units {x : Binary64} (hx : x.isZero = false) {a b : Nat}
    (hab : (a : Int) - b ≤ x.decimalExponent - 1) :
    10 ^ a * 2 ^ 1074 ≤ x.units * 10 ^ b := by
  have hpos : 1 ≤ x.units := by
    have hsignificand : x.significand ≠ 0 := by simpa [isZero] using hx
    rw [units, Nat.shiftLeft_eq]
    exact Nat.mul_pos (Nat.pos_of_ne_zero hsignificand) (Nat.pow_pos (by decide))
  exact pow_le_of_scaled hpos (by decide +kernel) hab

/-- A bound with a power of two is one with a shift, on four times both sides. -/
theorem four_mul_shiftLeft_le {p q u k : Nat} (h : p * 2 ^ k ≤ u * q) :
    (4 * p) <<< k ≤ 4 * u * q := by
  rw [Nat.shiftLeft_eq, Nat.mul_assoc, Nat.mul_assoc]
  exact Nat.mul_le_mul_left 4 h

/-- A decimal that rounds to a number other than zero has a digit other than zero. -/
theorem digits_decimal?_pos {x : Binary64} (hx : x.isZero = false) {count : Nat}
    (hcount : 1 ≤ count) {d : Decimal} (h : x.decimal? x.decimalExponent count = some d) :
    0 < d.digits := by
  have hunit : (4 * Nat.pow 10 (x.decimalExponent - count).toNat) <<< 1074 ≤
      4 * x.units * Nat.pow 10 (-(x.decimalExponent - count)).toNat :=
    four_mul_shiftLeft_le (pow_le_units hx (by omega))
  have hunitPos : 0 < (4 * Nat.pow 10 (x.decimalExponent - count).toNat) <<< 1074 := by
    rw [Nat.shiftLeft_eq]
    exact Nat.mul_pos (Nat.mul_pos (by decide) (Nat.pow_pos (by decide))) (Nat.two_pow_pos 1074)
  have hdigits : 0 < 4 * x.units * Nat.pow 10 (-(x.decimalExponent - count)).toNat /
      (4 * Nat.pow 10 (x.decimalExponent - count).toNat) <<< 1074 := Nat.div_pos hunit hunitPos
  unfold decimal? at h
  dsimp only at h
  split_ifs at h
  all_goals
    cases h
    first
    | exact hdigits
    | exact Nat.succ_pos _

/-- A shortest decimal is zero, or it has a digit other than zero. -/
theorem shortest_eq_zero_or_pos (x : Binary64) : x.shortest = ⟨0, 0⟩ ∨ 0 < x.shortest.digits := by
  rw [shortest]
  split
  · exact Or.inl rfl
  · rename_i hx
    have hfrom (more : Nat) : ∀ count, 1 ≤ count →
        x.shortestFrom x.decimalExponent count more = ⟨0, 0⟩ ∨
          0 < (x.shortestFrom x.decimalExponent count more).digits := by
      induction more with
      | zero => exact fun _ _ => Or.inl rfl
      | succ more ih =>
        intro count hcount
        rw [shortestFrom]
        cases hfound : x.decimal? x.decimalExponent count with
        | none => exact ih (count + 1) (by omega)
        | some d => exact Or.inr (digits_decimal?_pos (by simpa using hx) hcount hfound)
    exact hfrom 17 1 (Nat.le_refl 1)

end Binary64

namespace Json

open Text (IsDigits)

namespace Numeral

/-- A numeral in characters. -/
def text (n : Numeral) : Text :=
  (if n.negative then ['-'] else []) ++ (n.whole ++
    ((n.fraction.elim [] fun digits => '.' :: digits) ++
      n.exponent.elim [] fun e => 'e' :: ((if e.1 then ['-'] else []) ++ e.2)))

/-- Whether the parts of a numeral are digits, and no zero stands before others of its whole
part. -/
structure IsWellFormed (n : Numeral) : Prop where
  /-- The digits before the point. -/
  whole : n.whole = ['0'] ∨ IsDigits n.whole ∧ n.whole.head? ≠ some '0'
  /-- The digits after the point. -/
  fraction : ∀ digits ∈ n.fraction, IsDigits digits
  /-- The digits of the exponent. -/
  exponent : ∀ e ∈ n.exponent, IsDigits e.2

end Numeral

/-- Whether digits end where a text begins. -/
def EndsDigits (t : Text) : Prop :=
  ∀ c ∈ t.head?, c.isDigit = false

/-- Where a numeral ends, its digits end. -/
theorem EndsNumeral.endsDigits {t : Text} (h : EndsNumeral t) : EndsDigits t :=
  fun c hc => (h c hc).1

/-- Digits end before what is no digit. -/
theorem endsDigits_cons {c : Char} (hc : c.isDigit = false) (t : Text) : EndsDigits (c :: t) := by
  rintro d ⟨⟩
  exact hc

/-- Digits are split off from the text that ends them. -/
theorem splitDigits_of_isDigits {digits rest : Text} (hdigits : IsDigits digits)
    (hrest : EndsDigits rest) : splitDigits (digits ++ rest) = (digits, rest) :=
  splitDigits_append (List.all_eq_true.mp hdigits.2) hrest

/-- Digits are read up to the text that ends them. -/
theorem readDigits?_append {digits rest : Text} (hdigits : IsDigits digits)
    (hrest : EndsDigits rest) : readDigits? (digits ++ rest) = some (digits, rest) := by
  rw [readDigits?, splitDigits_of_isDigits hdigits hrest]
  obtain ⟨hne, -⟩ := hdigits
  cases digits with
  | nil => exact absurd rfl hne
  | cons => rfl

/-- The digits before the point are taken whole. -/
theorem readWhole?_append {whole rest : Text}
    (h : whole = ['0'] ∨ IsDigits whole ∧ whole.head? ≠ some '0') (hrest : EndsDigits rest) :
    readWhole? (whole ++ rest) = some (whole, rest) := by
  rcases h with rfl | ⟨hdigits, hhead⟩
  · rfl
  · have hsplit := splitDigits_of_isDigits hdigits hrest
    obtain ⟨hne, hall⟩ := hdigits
    cases whole with
    | nil => exact absurd rfl hne
    | cons c whole =>
      have hc : c.isDigit = true := List.all_eq_true.mp hall c List.mem_cons_self
      have hzero : c ≠ '0' := by simpa using hhead
      rw [List.cons_append] at hsplit ⊢
      rw [readWhole?, if_pos hc, hsplit]
      simpa using hzero

/-- An exponent is read with its sign, up to the text that ends its digits. -/
theorem readExponentDigits?_append (negative : Bool) {digits rest : Text}
    (hdigits : IsDigits digits) (hrest : EndsDigits rest) :
    readExponentDigits? ((if negative then ['-'] else []) ++ (digits ++ rest)) =
      some (some (negative, digits), rest) := by
  have hread := readDigits?_append hdigits hrest
  cases negative with
  | true =>
    show (readDigits? (digits ++ rest)).map _ = _
    rw [hread]
    rfl
  | false =>
    obtain ⟨hne, hall⟩ := hdigits
    cases digits with
    | nil => exact absurd rfl hne
    | cons c digits =>
      have hc : c.isDigit = true := List.all_eq_true.mp hall c List.mem_cons_self
      have hsign {d : Char} (hd : d.isDigit = false) : c ≠ d := by
        rintro rfl
        rw [hc] at hd
        cases hd
      simp only [Bool.false_eq_true, if_false, List.nil_append, List.cons_append] at hread ⊢
      rw [readExponentDigits?]
      · rw [hread]
        rfl
      · intro other heq
        exact hsign (by decide) (List.cons.inj heq).1
      · intro other heq
        exact hsign (by decide) (List.cons.inj heq).1

namespace Numeral

variable {n : Numeral} {rest : Text}

/-- An exponent is read back, or that there is none. -/
theorem readExponent?_elim_append {exponent : Option (Bool × Text)}
    (h : ∀ e ∈ exponent, IsDigits e.2) (hrest : EndsNumeral rest) :
    readExponent? ((exponent.elim [] fun e => 'e' :: ((if e.1 then ['-'] else []) ++ e.2)) ++ rest) =
      some (exponent, rest) := by
  cases exponent with
  | none => exact readExponent?_of_ends hrest
  | some e =>
    obtain ⟨sign, digits⟩ := e
    have hread := readExponentDigits?_append sign (h (sign, digits) rfl) hrest.endsDigits
    rw [← List.append_assoc] at hread
    exact hread

/-- What may stand after a numeral or its exponent ends the digits before it, and is no point. -/
theorem endsDigits_exponent (exponent : Option (Bool × Text)) (hrest : EndsNumeral rest) {tail : Text}
    (htail : (exponent.elim [] fun e => 'e' :: ((if e.1 then ['-'] else []) ++ e.2)) ++ rest = tail) :
    EndsDigits tail ∧ tail.head? ≠ some '.' := by
  subst htail
  cases exponent with
  | none => exact ⟨hrest.endsDigits, fun hhead => (hrest '.' hhead).2.1 rfl⟩
  | some e => exact ⟨endsDigits_cons (by decide) _, by simp⟩

/-- A fraction is read back, or that there is none. -/
theorem readFraction?_elim_append {fraction : Option Text} {tail : Text}
    (h : ∀ digits ∈ fraction, IsDigits digits) (htail : EndsDigits tail)
    (hpoint : tail.head? ≠ some '.') :
    readFraction? ((fraction.elim [] fun digits => '.' :: digits) ++ tail) =
      some (fraction, tail) := by
  cases fraction with
  | none =>
    cases tail with
    | nil => rfl
    | cons c tail =>
      have hc : c ≠ '.' := by simpa using hpoint
      rw [Option.elim, List.nil_append, readFraction?]
      simpa using hc
  | some digits =>
    show (readDigits? (digits ++ tail)).map _ = _
    rw [readDigits?_append (h digits rfl) htail]
    rfl

/-- The whole part of a numeral does not begin with a sign. -/
theorem whole_append_ne_sign {whole : Text} (h : whole = ['0'] ∨ IsDigits whole) (middle other : Text) :
    whole ++ middle ≠ '-' :: other := by
  intro heq
  have hhead : ∀ c ∈ (whole ++ middle).head?, c.isDigit = true := by
    intro c hc
    rcases h with rfl | ⟨hne, hall⟩
    · cases hc
      rfl
    · rw [List.head?_append, Option.or_of_isSome (by simpa using hne)] at hc
      exact List.all_eq_true.mp hall c (List.mem_of_mem_head? hc)
  have hsign := hhead '-' (by rw [heq]; rfl)
  cases hsign

/-- A well formed numeral is read back, whatever stands after it. -/
theorem IsWellFormed.readNumeral? (h : n.IsWellFormed) (hrest : EndsNumeral rest) :
    readNumeral? (n.text ++ rest) = some (n, rest) := by
  obtain ⟨negative, whole, fraction, exponent⟩ := n
  obtain ⟨hwhole, hfraction, hexponent⟩ := h
  dsimp only at hwhole hfraction hexponent
  have hreadExponent := readExponent?_elim_append hexponent hrest
  generalize hE : (exponent.elim [] fun e => 'e' :: ((if e.1 then ['-'] else []) ++ e.2)) ++ rest =
    tail at hreadExponent
  obtain ⟨htail, hpoint⟩ := endsDigits_exponent exponent hrest hE
  have hreadFraction := readFraction?_elim_append hfraction htail hpoint
  generalize hF : (fraction.elim [] fun digits => '.' :: digits) ++ tail = middle at hreadFraction
  have htext : text ⟨negative, whole, fraction, exponent⟩ ++ rest =
      (if negative then ['-'] else []) ++ (whole ++ middle) := by
    simp only [text, List.append_assoc, hE, hF]
  have hmiddle : EndsDigits middle := by
    subst hF
    cases fraction with
    | none => exact htail
    | some digits => exact endsDigits_cons (by decide) _
  have hparts : readParts? negative (whole ++ middle) =
      some (⟨negative, whole, fraction, exponent⟩, rest) := by
    simp only [readParts?, readWhole?_append hwhole hmiddle, hreadFraction, hreadExponent,
      Option.bind_eq_bind, Option.bind_some]
  rw [htext]
  cases negative with
  | true => exact hparts
  | false =>
    have hsign := whole_append_ne_sign (hwhole.imp_right And.left) middle
    exact (readNumeral?_plain hsign).trans hparts

/-- A well formed numeral begins with a sign or a digit. -/
theorem IsWellFormed.exists_cons (h : n.IsWellFormed) :
    ∃ c t, n.text = c :: t ∧ (c.isDigit = true ∨ c = '-') := by
  unfold text
  cases n.negative with
  | true => exact ⟨'-', _, rfl, Or.inr rfl⟩
  | false =>
    rcases h.whole with hzero | ⟨⟨hne, hall⟩, -⟩
    · exact ⟨'0', _, by rw [hzero]; rfl, Or.inl rfl⟩
    · cases hwhole : n.whole with
      | nil => exact absurd hwhole hne
      | cons c whole =>
        rw [hwhole] at hall
        exact ⟨c, _, rfl, Or.inl (List.all_eq_true.mp hall c List.mem_cons_self)⟩

/-- The characters of a well formed numeral. -/
theorem IsWellFormed.mem_text (h : n.IsWellFormed) {c : Char} (hc : c ∈ n.text) :
    c.isDigit = true ∨ c ∈ ['-', '.', 'e'] := by
  have hwhole : n.whole.all Char.isDigit = true := by
    rcases h.whole with hzero | ⟨hdigits, -⟩
    · rw [hzero]
      rfl
    · exact hdigits.2
  have hdigit {digits : Text} (hall : digits.all Char.isDigit = true) (hmem : c ∈ digits) :
      c.isDigit = true := List.all_eq_true.mp hall c hmem
  have hsign {negative : Bool} (hmem : c ∈ if negative then ['-'] else []) : c = '-' := by
    cases negative with
    | false => cases hmem
    | true => simpa using hmem
  simp only [text, List.mem_append] at hc
  rcases hc with hc | hc | hc | hc
  · exact Or.inr (by simp [hsign hc])
  · exact Or.inl (hdigit hwhole hc)
  · cases hfraction : n.fraction with
    | none => simp [hfraction] at hc
    | some digits =>
      rw [hfraction] at hc
      rcases List.mem_cons.mp hc with rfl | hc
      · exact Or.inr (by simp)
      · exact Or.inl (hdigit (h.fraction digits hfraction).2 hc)
  · cases hexponent : n.exponent with
    | none => simp [hexponent] at hc
    | some e =>
      rw [hexponent] at hc
      rcases List.mem_cons.mp hc with rfl | hc
      · exact Or.inr (by simp)
      · rcases List.mem_append.mp hc with hc | hc
        · exact Or.inr (by simp [hsign hc])
        · exact Or.inl (hdigit (h.exponent e hexponent).2 hc)

end Numeral

/-- The numeral of an integer. -/
theorem exists_numeral_int (n : Int) :
    ∃ numeral : Numeral, numeral.IsWellFormed ∧ numeral.text = renderInt n := by
  refine ⟨⟨decide (n < 0), Text.ofNat n.natAbs, none, none⟩, ⟨?_, by simp, by simp⟩, ?_⟩
  · rcases Nat.eq_zero_or_pos n.natAbs with hzero | hpos
    · left
      dsimp only
      rw [hzero]
      rfl
    · exact Or.inr ⟨Text.isDigits_ofNat _, head?_ofNat hpos⟩
  · by_cases hneg : n < 0 <;> simp [Numeral.text, renderInt, hneg]

/-- Digits with the point at a place are laid out as a numeral without a sign. -/
theorem exists_numeral_layout {digits : Text} {point : Int}
    (h : digits = [] ∧ point = 1 ∨ IsDigits digits ∧ digits.head? ≠ some '0') :
    ∃ numeral : Numeral, numeral.IsWellFormed ∧ numeral.negative = false ∧
      numeral.text = layoutDigits digits point := by
  rcases h with ⟨rfl, rfl⟩ | ⟨⟨hne, hall⟩, hhead⟩
  · exact ⟨⟨false, ['0'], some ['0'], none⟩, ⟨Or.inl rfl, by simp [IsDigits], by simp⟩, rfl,
      by decide⟩
  have hzeros (n : Nat) := Text.all_isDigit_replicate n
  have htake (n : Nat) : (digits.take n).all Char.isDigit = true :=
    List.all_eq_true.mpr fun c hc => List.all_eq_true.mp hall c (List.mem_of_mem_take hc)
  have hdrop (n : Nat) : (digits.drop n).all Char.isDigit = true :=
    List.all_eq_true.mpr fun c hc => List.all_eq_true.mp hall c (List.mem_of_mem_drop hc)
  unfold layoutDigits
  dsimp only
  split
  · refine ⟨⟨false, digits ++ List.replicate (point - digits.length).toNat '0', some ['0'], none⟩,
      ⟨Or.inr ⟨Text.isDigits_append (Or.inl hne) hall (hzeros _), ?_⟩, by simp [IsDigits], by simp⟩,
      rfl, by simp [Numeral.text]⟩
    rwa [List.head?_append, Option.or_of_isSome (by simpa using hne)]
  · split
    · rename_i hmany hpoint
      have hcut : 0 < point.toNat ∧ point.toNat < digits.length := by omega
      have htakeNe : digits.take point.toNat ≠ [] := by
        simp only [ne_eq, List.take_eq_nil_iff, hne, or_false]
        omega
      have hdropNe : digits.drop point.toNat ≠ [] := by
        rw [ne_eq, List.drop_eq_nil_iff]
        omega
      refine ⟨⟨false, digits.take point.toNat, some (digits.drop point.toNat), none⟩,
        ⟨Or.inr ⟨⟨htakeNe, htake _⟩, ?_⟩, ?_, by simp⟩, rfl, by simp [Numeral.text]⟩
      · rwa [List.head?_take, if_neg (by omega)]
      · rintro _ ⟨⟩
        exact ⟨hdropNe, hdrop _⟩
    · split
      · refine ⟨⟨false, ['0'], some (List.replicate (-point).toNat '0' ++ digits), none⟩,
          ⟨Or.inl rfl, ?_, by simp⟩, rfl, by simp [Numeral.text]⟩
        rintro _ ⟨⟩
        exact Text.isDigits_append (Or.inr hne) (hzeros _) hall
      · cases digits with
        | nil => exact absurd rfl hne
        | cons c digits =>
          obtain ⟨hc, hdigits⟩ : c.isDigit = true ∧ digits.all Char.isDigit = true := by
            simpa using hall
          have hwhole : IsDigits [c] ∧ [c].head? ≠ some '0' :=
            ⟨⟨by simp, by simpa using hc⟩, by simpa using hhead⟩
          have hexponent : ∀ e ∈ some (decide (point - 1 < 0), Text.ofNat (point - 1).natAbs),
              IsDigits e.2 := by
            rintro _ ⟨⟩
            exact Text.isDigits_ofNat _
          cases digits with
          | nil =>
            refine ⟨⟨false, [c], none, some (decide (point - 1 < 0), _)⟩,
              ⟨Or.inr hwhole, by simp, hexponent⟩, rfl, ?_⟩
            by_cases hneg : point - 1 < 0 <;> simp [Numeral.text, hneg]
          | cons d digits =>
            refine ⟨⟨false, [c], some (d :: digits), some (decide (point - 1 < 0), _)⟩,
              ⟨Or.inr hwhole, ?_, hexponent⟩, rfl, ?_⟩
            · rintro _ ⟨⟩
              exact ⟨List.cons_ne_nil d digits, hdigits⟩
            · by_cases hneg : point - 1 < 0 <;> simp [Numeral.text, hneg]

/-- The numeral of a floating point number. -/
theorem exists_numeral_real (x : Binary64) :
    ∃ numeral : Numeral, numeral.IsWellFormed ∧ numeral.text = renderReal x := by
  unfold renderReal
  dsimp only
  split
  · exact ⟨⟨x.negative, ['0'], some ['0'], none⟩, ⟨Or.inl rfl, by simp [IsDigits], by simp⟩,
      by cases x.negative <;> rfl⟩
  · have hdigits : (pointed x.shortest).1 = [] ∧ (pointed x.shortest).2 = 1 ∨
        IsDigits (pointed x.shortest).1 ∧ (pointed x.shortest).1.head? ≠ some '0' := by
      rw [pointed]
      rcases x.shortest_eq_zero_or_pos with hzero | hpos
      · left
        rw [hzero]
        decide
      · exact Or.inr (Text.isDigits_trimEndChar (Text.isDigits_ofNat _) (head?_ofNat hpos))
    obtain ⟨⟨negative, whole, fraction, exponent⟩, hformed, rfl, htext⟩ :=
      exists_numeral_layout hdigits
    refine ⟨⟨x.negative, whole, fraction, exponent⟩,
      ⟨hformed.whole, hformed.fraction, hformed.exponent⟩, ?_⟩
    rw [← htext]
    rfl

/-- Every number is written as a well formed numeral. -/
theorem Number.exists_numeral (n : Number) :
    ∃ numeral : Numeral, numeral.IsWellFormed ∧ numeral.text = n.render := by
  cases n with
  | int n => exact exists_numeral_int n
  | real x => exact exists_numeral_real x

end Json

end PromptScript
