/-
# Numerals

A numeral has a sign, digits, perhaps digits after a point and perhaps an exponent.
Only a numeral without point, exponent and sign is a count.

Every numeral that is not too large is a floating point number. Its digits are first
collected in a machine word, the significand, and the word is then scaled by a power
of ten. Both steps round, so the result may differ from the nearest number by a few
units in the last place.
-/

import ParallelLoop.Text.Count

namespace ParallelLoop.Json

/-- A number as it is written. -/
structure Numeral where
  negative : Bool
  /-- The digits before the point. -/
  whole : List Nat
  /-- The digits after the point; none if there is no point. -/
  fraction : List Nat
  exponent : Option Int
  deriving DecidableEq, Repr

/-- The digits at the front of a text, and what follows them. -/
def spanDigits (chars : List Char) : List Nat × List Char :=
  ((chars.takeWhile Char.isDigit).filterMap Text.digit?, chars.dropWhile Char.isDigit)

/-- The characters of numerals. -/
def isNumeralChar (c : Char) : Bool := c.isDigit || "+-.eE".contains c

namespace Numeral

/-- Reads an exponent to the end of the text. -/
def exponentOf? (chars : List Char) : Option Int :=
  match chars with
  | '-' :: digits => (Text.readNumber? digits).map fun value => -(value : Int)
  | '+' :: digits => (Text.readNumber? digits).map Int.ofNat
  | digits => (Text.readNumber? digits).map Int.ofNat

/-- Reads a numeral to the end of the text. There is a digit before the point and another one
after it, and no zero in front of other digits. -/
def ofChars? (chars : List Char) : Option Numeral :=
  let (negative, chars) := match chars with
    | '-' :: rest => (true, rest)
    | _ => (false, chars)
  let (whole, chars) := spanDigits chars
  let (fraction, point, chars) := match chars with
    | '.' :: rest => let (digits, rest) := spanDigits rest; (digits, true, rest)
    | _ => ([], false, chars)
  let exponent := match chars with
    | [] => some none
    | c :: rest => if c = 'e' ∨ c = 'E' then (exponentOf? rest).map some else none
  if whole = [] ∨ (whole.head? = some 0 ∧ whole ≠ [0]) ∨ (point ∧ fraction = []) then none
  else exponent.map fun exponent => { negative, whole, fraction, exponent }

/-! ## Counts -/

/-- The count that a numeral is. -/
def count? (numeral : Numeral) : Option Nat :=
  if numeral.negative ∨ numeral.fraction ≠ [] ∨ numeral.exponent.isSome then none
  else Word.count? (numeral.whole.foldl (10 * · + ·) 0)

/-! ## Floating point numbers -/

/-- Appends digits to a word as long as they fit. Gives the word and the number of digits left
over. -/
def collect (word : Nat) : List Nat → Nat × Nat
  | [] => (word, 0)
  | digit :: rest =>
    match Word.count? (10 * word + digit) with
    | some word => collect word rest
    | none => (word, rest.length + 1)

/-- The significand of a numeral, and the power of ten that scales it. Digits before the point
that are left over count as zeros; those after it do not count. -/
def parts (numeral : Numeral) : Nat × Int :=
  let (word, dropped) := collect 0 numeral.whole
  let (word, unread) := collect word numeral.fraction
  let places : Nat := numeral.fraction.length - unread
  (word, (dropped : Int) - places + numeral.exponent.getD 0)

/-- The power of ten nearest to `10 ^ exponent`. -/
def powerOfTen (exponent : Nat) : Float := Float.ofScientific 1 false exponent

/-- The largest exponent whose power of ten is finite. -/
def maxExponent : Nat := 308

/-- The value divided by a power of ten, in steps of the largest one. -/
def scaleDown (value : Float) (exponent : Nat) : Float :=
  if exponent ≤ maxExponent then value / powerOfTen exponent
  else if value == 0 then value
  else scaleDown (value / powerOfTen maxExponent) (exponent - maxExponent)
termination_by exponent
decreasing_by
  simp only [maxExponent] at *
  omega

/-- The value times a power of ten, if that is finite. -/
def scaleUp? (value : Float) (exponent : Nat) : Option Float :=
  if exponent ≤ maxExponent then
    let product := value * powerOfTen exponent
    if product.isInf then none else some product
  else if value == 0 then some value
  else none

/-- The floating point number that a numeral stands for. -/
def float? (numeral : Numeral) : Option Float :=
  let (significand, exponent) := numeral.parts
  let value := (UInt64.ofNat significand).toFloat
  let size :=
    if 0 ≤ exponent then scaleUp? value exponent.toNat
    else some (scaleDown value (-exponent).toNat)
  size.map fun size => if numeral.negative then -size else size

end Numeral

end ParallelLoop.Json
