import PromptScript.Number.Shortest

/-!
# JSON numbers

A number is an integer of at most 64 bits or a floating point number. Floating point numbers are
written with the fewest digits that read back, always with a point or an exponent. A numeral is
read with a significand of at most 64 bits, further digits being dropped, and one multiplication
or division by a power of ten.
-/

namespace PromptScript.Json

/-- A JSON number. -/
inductive Number where
  /-- An integer. -/
  | int (value : Int)
  /-- A floating point number. -/
  | real (value : Binary64)
  deriving DecidableEq, Repr

/-- The parts of a numeral as written. -/
structure Numeral where
  /-- Whether a minus sign stands before it. -/
  negative : Bool
  /-- The digits before the point. -/
  whole : Text
  /-- The digits after the point, if there is a point. -/
  fraction : Option Text
  /-- The exponent, if there is one: whether it is negative, and its digits. -/
  exponent : Option (Bool × Text)
  deriving DecidableEq, Repr

/-- The greatest natural number of 64 bits. -/
def maxWord : Nat := (1 <<< 64) - 1

/-- The value of a decimal digit. -/
def digitValue (c : Char) : Nat :=
  c.toNat - '0'.toNat

/-- The significand with one more digit, unless it would take more than 64 bits. -/
def pushDigit? (significand : Nat) (c : Char) : Option Nat :=
  let next := significand * 10 + digitValue c
  if next ≤ maxWord then some next else none

/-- Takes digits into the significand as long as they fit; gives it with the digits left over. -/
def takeDigits (significand : Nat) : Text → Nat × Text
  | [] => (significand, [])
  | c :: rest =>
    match pushDigit? significand c with
    | some next => takeDigits next rest
    | none => (significand, c :: rest)

/-- The natural number that digits write. -/
def natOfDigits (digits : Text) : Nat :=
  digits.foldl (fun n c => n * 10 + digitValue c) 0

/-- The number divided by a power of ten, in steps of at most 308 places. -/
def divPow10? (x : Binary64) (places : Nat) : Option Binary64 :=
  if x.isZero then some x
  else if h : places ≤ 308 then do
    x.div? (← Binary64.ofNat? (Nat.pow 10 places))
  else do
    divPow10? (← x.div? (← Binary64.ofNat? (Nat.pow 10 308))) (places - 308)
termination_by places
decreasing_by omega

/-- The number multiplied by a power of ten; nothing beyond the greatest finite number. -/
def mulPow10? (x : Binary64) (places : Nat) : Option Binary64 :=
  if x.isZero then some x
  else if places ≤ 308 then do x.mul? (← Binary64.ofNat? (Nat.pow 10 places))
  else none

/-- The floating point number `significand * 10 ^ exponent`. -/
def scaled? (negative : Bool) (significand : Nat) (exponent : Int) : Option Binary64 := do
  let x ← Binary64.ofNat? significand
  let y ← if 0 ≤ exponent then mulPow10? x exponent.toNat else divPow10? x (-exponent).toNat
  some { y with negative := negative }

/-- The number a numeral stands for; nothing if it is too great. -/
def Numeral.number? (n : Numeral) : Option Number :=
  match takeDigits 0 n.whole, n.fraction, n.exponent with
  | (significand, []), none, none =>
    if !n.negative then some (.int significand)
    else if significand = 0 then some (.real (.zero true))
    else if significand ≤ 1 <<< 63 then some (.int (-significand))
    else (scaled? true significand 0).map .real
  | (significand, dropped), fraction, exponent =>
    let digits := fraction.getD []
    let (significand, left) := takeDigits significand digits
    let places : Int := dropped.length - (digits.length - left.length : Nat)
    let shift : Int := match exponent with
      | none => 0
      | some (negative, digits) =>
        if negative then -(natOfDigits digits : Int) else natOfDigits digits
    (scaled? n.negative significand (places + shift)).map .real

/-- The digits of a decimal without zeros at their end, and the place of the decimal point counted
from their start. -/
def pointed (d : Decimal) : Text × Int :=
  let digits := Text.ofNat d.digits
  (Text.trimEndChar '0' digits, digits.length + d.exponent)

/-- The form of the digits of a floating point number with the point at a place: positional from
10^-5 up to 10^16, scientific beyond. -/
def layoutDigits (digits : Text) (point : Int) : Text :=
  let zeros (n : Int) : Text := List.replicate n.toNat '0'
  if digits.length ≤ point ∧ point ≤ 16 then
    digits ++ zeros (point - digits.length) ++ ".0".toList
  else if 0 < point ∧ point ≤ 16 then
    digits.take point.toNat ++ '.' :: digits.drop point.toNat
  else if -5 < point ∧ point ≤ 0 then "0.".toList ++ zeros (-point) ++ digits
  else
    let exponent := point - 1
    let sign := if exponent < 0 then "-".toList else []
    let mantissa := match digits with
      | [] => []
      | [c] => [c]
      | c :: rest => c :: '.' :: rest
    mantissa ++ 'e' :: sign ++ Text.ofNat exponent.natAbs

/-- The written form of a floating point number. -/
def renderReal (x : Binary64) : Text :=
  let sign := if x.negative then "-".toList else []
  if x.isZero then sign ++ "0.0".toList
  else
    let (digits, point) := pointed x.shortest
    sign ++ layoutDigits digits point

/-- The written form of an integer. -/
def renderInt (n : Int) : Text :=
  (if n < 0 then "-".toList else []) ++ Text.ofNat n.natAbs

/-- The written form of a number. -/
def Number.render : Number → Text
  | .int n => renderInt n
  | .real x => renderReal x

end PromptScript.Json
