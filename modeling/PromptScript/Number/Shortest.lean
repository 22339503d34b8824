import PromptScript.Number.Binary64
import PromptScript.Text.Split

/-!
# Shortest decimals

The decimal of the fewest digits that lies closer to a floating point number than to any other
number of the format, and of those the nearest. For each count of digits only the two neighbours
of the number on the decimal grid are tested, in exact arithmetic.
-/

namespace PromptScript

/-- The decimal `digits * 10 ^ exponent`. -/
structure Decimal where
  /-- The digits, read as a natural number. -/
  digits : Nat
  /-- The power of ten of the last digit. -/
  exponent : Int
  deriving DecidableEq, Repr

namespace Binary64

/-- The least power of ten above the number: the number is below `10 ^ k` and not below
`10 ^ (k - 1)`. The number must not be zero. -/
def decimalExponent (x : Binary64) : Int :=
  ((Text.ofNat ((x.units * Nat.pow 10 400) >>> 1074)).length : Int) - 400

/-- The decimal of a given count of digits nearest to the number, if it rounds to the number. -/
def decimal? (x : Binary64) (k : Int) (count : Nat) : Option Decimal :=
  let exponent := k - count
  let stretch := Nat.pow 10 (-exponent).toNat
  let unit := (4 * Nat.pow 10 exponent.toNat) <<< 1074
  let value := 4 * x.units * stretch
  let step := (1 <<< x.scale) * stretch
  let below := if x.significand = 1 <<< 52 ∧ 0 < x.scale then step else 2 * step
  let above := 2 * step
  let digits := value / unit
  let down := value % unit
  let up := unit - down
  let even := x.significand % 2 = 0
  let fitsDown := down < below ∨ (even ∧ down = below)
  let fitsUp := up < above ∨ (even ∧ up = above)
  if fitsDown ∧ (¬ fitsUp ∨ down < up ∨ (down = up ∧ digits % 2 = 0)) then
    some ⟨digits, exponent⟩
  else if fitsUp then some ⟨digits + 1, exponent⟩
  else none

/-- The first decimal found with at least `count` digits, `more` attempts being left. -/
def shortestFrom (x : Binary64) (k : Int) (count : Nat) : Nat → Decimal
  | 0 => ⟨0, 0⟩
  | more + 1 => (x.decimal? k count).getD (shortestFrom x k (count + 1) more)

/-- The shortest decimal that rounds to the number; seventeen digits always suffice. -/
def shortest (x : Binary64) : Decimal :=
  if x.isZero then ⟨0, 0⟩ else shortestFrom x x.decimalExponent 1 17

end Binary64

end PromptScript
