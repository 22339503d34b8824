import PromptScript.Number.Shortest

/-!
# Floating point numbers in settings

Numbers with the infinities and the number that is none, read with correct rounding and written
without an exponent.
-/

namespace PromptScript

/-- A floating point number. -/
inductive Real where
  /-- A finite number. -/
  | finite (value : Binary64)
  /-- An infinity with its sign. -/
  | infinite (negative : Bool)
  /-- What is not a number. -/
  | nan
  deriving DecidableEq, Repr

namespace Real

/-- The value of decimal digits. -/
def digitsValue (digits : Text) : Nat :=
  digits.foldl (fun n c => n * 10 + (c.toNat - '0'.toNat)) 0

/-- The number nearest to `digits * 10 ^ exponent`. Far beyond the range of the format the digits
do not matter. -/
def ofDecimal (negative : Bool) (digits : Nat) (exponent : Int) : Real :=
  let size : Int := (Text.ofNat digits).length + exponent
  if digits = 0 ∨ size < -400 then .finite (.zero negative)
  else if 400 < size then .infinite negative
  else
    let found :=
      if 0 ≤ exponent then Binary64.ofRatio? negative (digits * Nat.pow 10 exponent.toNat) 1
      else Binary64.ofRatio? negative digits (Nat.pow 10 (-exponent).toNat)
    (found.map Real.finite).getD (.infinite negative)

/-- The exponent that a text writes after its mark, if it is well formed. -/
def exponent? (t : Text) : Option Int :=
  let (negative, digits) := match t with
    | '-' :: rest => (true, rest)
    | '+' :: rest => (false, rest)
    | _ => (false, t)
  if digits.isEmpty ∨ !digits.all Char.isDigit then none
  else some (if negative then -(digitsValue digits : Int) else digitsValue digits)

/-- The number that a text without a sign writes in decimal. -/
def decimal? (negative : Bool) (t : Text) : Option Real := do
  let whole := t.takeWhile Char.isDigit
  let (fraction, rest) := match t.dropWhile Char.isDigit with
    | '.' :: rest => (rest.takeWhile Char.isDigit, rest.dropWhile Char.isDigit)
    | rest => ([], rest)
  if whole.isEmpty ∧ fraction.isEmpty then none
  else
    let exponent ← match rest with
      | [] => some 0
      | c :: rest => if c = 'e' ∨ c = 'E' then exponent? rest else none
    some (ofDecimal negative (digitsValue (whole ++ fraction)) (exponent - fraction.length))

/-- The number that a text writes. -/
def ofText? (t : Text) : Option Real :=
  let (negative, t) := match t with
    | '-' :: rest => (true, rest)
    | '+' :: rest => (false, rest)
    | _ => (false, t)
  let word := Text.lower t
  if word = "inf".toList ∨ word = "infinity".toList then some (.infinite negative)
  else if word = "nan".toList then some .nan
  else decimal? negative t

/-- The decimal form of a finite number without an exponent. -/
def renderFinite (x : Binary64) : Text :=
  let sign := if x.negative then ['-'] else []
  if x.isZero then sign ++ ['0']
  else
    let d := x.shortest
    let digits := Text.ofNat d.digits
    let point : Int := digits.length + d.exponent
    let zeros (n : Int) : Text := List.replicate n.toNat '0'
    if 0 ≤ d.exponent then sign ++ digits ++ zeros d.exponent
    else if 0 < point then sign ++ digits.take point.toNat ++ '.' :: digits.drop point.toNat
    else sign ++ "0.".toList ++ zeros (-point) ++ digits

/-- The decimal form of a number. -/
def render : Real → Text
  | .finite x => renderFinite x
  | .infinite negative => (if negative then "-".toList else []) ++ "inf".toList
  | .nan => "NaN".toList

/-- The natural number nearest to a number, a half going up; zero for what lies below. -/
def roundNat : Real → Nat
  | .finite x =>
    if x.negative then 0 else (2 * x.units + (1 <<< 1074)) / (1 <<< 1075)
  | .infinite negative => if negative then 0 else (1 <<< 64) - 1
  | .nan => 0

end Real

end PromptScript
