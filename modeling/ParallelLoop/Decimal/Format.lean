/-
# Decimal texts of numbers

Two ways to write a number occur in messages. A *plain* text has the shortest
digits that read back and never an exponent. A *rounded* text has no places after
the point; it is the natural nearest to the exact value.

In a document a number is a *literal*. It has the shortest digits, too, but always a
point or an exponent, and it is not padded with many zeros.
-/

import ParallelLoop.Decimal.Round
import ParallelLoop.Decimal.Shortest

namespace ParallelLoop.Decimal

/-- The sign of a text. -/
def sign (negative : Bool) : String := if negative then "-" else ""

/-- A text of zeros. -/
def zeros (count : Nat) : String := String.ofList (List.replicate count '0')

/-- The value in digits with a point where one is needed. -/
def Scientific.positional (value : Scientific) : String :=
  let digits := toString value.digits
  if 0 ≤ value.exponent then
    if value.digits = 0 then digits else digits ++ zeros value.exponent.toNat
  else
    let places := (-value.exponent).toNat
    let padded := zeros (places + 1 - digits.length) ++ digits
    let whole := padded.length - places
    (padded.take whole).toString ++ "." ++ (padded.drop whole).toString

/-- The text of a number with as many digits as it needs. -/
def plain (value : Float) : String :=
  match Binary.ofFloat value with
  | .nan => "NaN"
  | .infinite negative => sign negative ++ "inf"
  | .finite negative mantissa exponent =>
    sign negative ++ (shortest .up mantissa exponent).positional

/-- The value as one digit before the point, the others after it, and an exponent. -/
def Scientific.normalized (value : Scientific) : String :=
  let digits := toString value.digits
  let places := if digits.length = 1 then "" else "." ++ (digits.drop 1).toString
  (digits.take 1).toString ++ places ++ "e" ++ toString (value.exponent + (digits.length - 1))

/-- The value with a point between its digits if the point falls at most five places before the
first digit or sixteen after it, else with an exponent. -/
def Scientific.literal (value : Scientific) : String :=
  let point := value.exponent + digitCount value.digits
  if value.digits = 0 then "0.0"
  else if -5 < point ∧ point ≤ 16 then
    value.positional ++ (if 0 ≤ value.exponent then ".0" else "")
  else value.normalized

/-- The text of a finite number in a document. A number that is not finite has none. -/
def literal (value : Float) : String :=
  match Binary.ofFloat value with
  | .nan | .infinite _ => "null"
  | .finite negative mantissa exponent =>
    sign negative ++ (shortest .even mantissa exponent).literal

/-- The text of a number without places after the point. -/
def rounded (value : Float) : String :=
  match Binary.ofFloat value with
  | .nan => "NaN"
  | .infinite negative => sign negative ++ "inf"
  | .finite negative mantissa exponent =>
    let (num, den) := Binary.quotient mantissa exponent
    sign negative ++ toString (roundHalfEven num den)

end ParallelLoop.Decimal
