/-!
# Binary floating point

Finite numbers of the 64-bit binary format, in natural numbers: a significand below 2^53 and a
power of two above the least one, 2^-1074. Every operation is one exact ratio, rounded once to the
nearest number of the format, a tie to the even significand.
-/

namespace PromptScript

/-- The finite number `significand * 2 ^ scale / 2 ^ 1074` with its sign. -/
structure Binary64 where
  /-- Whether the number carries a minus sign. -/
  negative : Bool
  /-- The significand, below 2^53. -/
  significand : Nat
  /-- The power of two, in units of the least number of the format. -/
  scale : Nat
  deriving DecidableEq, Repr

namespace Binary64

/-- The zero with a sign. -/
def zero (negative : Bool) : Binary64 :=
  ⟨negative, 0, 0⟩

/-- Whether the number is zero. -/
def isZero (x : Binary64) : Bool :=
  x.significand == 0

/-- The quotient rounded to the nearest natural number, a tie to the even one. -/
def divNearest (num den : Nat) : Nat :=
  let q := num / den
  let r := num % den
  if 2 * r > den ∨ (2 * r = den ∧ q % 2 = 1) then q + 1 else q

/-- The number nearest to a ratio; nothing if it lies beyond the greatest finite number. -/
def ofRatio? (negative : Bool) (num den : Nat) : Option Binary64 :=
  let units := num <<< 1074
  let scale := Nat.log2 (units / den) - 52
  let significand := divNearest units (den <<< scale)
  if significand < 1 <<< 53 then
    if scale ≤ 2045 then some ⟨negative, significand, scale⟩ else none
  else if scale < 2045 then some ⟨negative, 1 <<< 52, scale + 1⟩ else none

/-- The number nearest to a natural number. -/
def ofNat? (n : Nat) : Option Binary64 :=
  ofRatio? false n 1

/-- The size of the number in units of 2^-1074. -/
def units (x : Binary64) : Nat :=
  x.significand <<< x.scale

/-- The product, rounded; nothing on overflow. -/
def mul? (x y : Binary64) : Option Binary64 :=
  ofRatio? (x.negative != y.negative) (x.units * y.units) (1 <<< 2148)

/-- The quotient by a number that is not zero, rounded; nothing on overflow. -/
def div? (x y : Binary64) : Option Binary64 :=
  ofRatio? (x.negative != y.negative) x.units y.units

end Binary64

end PromptScript
