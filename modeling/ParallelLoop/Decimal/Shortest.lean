/-
# Shortest decimals

The shortest decimal of a floating point number has as few digits as any decimal
that reads back as the number, and is the nearest to it among those. The decimals
that read back lie in the interval between the middles to the two neighbouring
numbers; a middle belongs to it when the mantissa is even.

The decimals with a given number of digits form a grid. If a grid has a point in
the interval, one of the two points next to the number is in it, so only these two
are tried, from the coarsest grid to finer ones.
-/

import ParallelLoop.Decimal.Binary

namespace ParallelLoop.Decimal

/-- The value `digits * 10 ^ exponent`. -/
structure Scientific where
  digits : Nat
  exponent : Int
  deriving DecidableEq, Repr

/-- Which of two equally near decimals is taken. -/
inductive TieBreak
  | up | even
  deriving DecidableEq, Repr

/-- The power of ten with this exponent, or one for a negative exponent. -/
def powerOfTen (exponent : Int) : Nat := Nat.pow 10 exponent.toNat

/-- The interval of decimals that read back as a number, over a common denominator. -/
structure RoundingInterval where
  lower : Nat
  value : Nat
  upper : Nat
  den : Nat
  /-- Whether the ends belong to the interval. -/
  closed : Bool
  deriving DecidableEq, Repr

namespace RoundingInterval

/-- The interval of `mantissa * 2 ^ exponent`. The number below a power of two is nearer than
the one above. -/
def around (mantissa : Nat) (exponent : Int) : RoundingInterval :=
  let (scale, den) := Binary.quotient 1 (exponent - 2)
  let below := if mantissa = Binary.implicitBit ∧ -1074 < exponent then 1 else 2
  { lower := (4 * mantissa - below) * scale
    value := 4 * mantissa * scale
    upper := (4 * mantissa + 2) * scale
    den
    closed := mantissa % 2 == 0 }

/-- The point `count * 10 ^ exponent` lies in the interval. -/
def holds (interval : RoundingInterval) (count : Nat) (exponent : Int) : Bool :=
  let point := count * powerOfTen exponent * interval.den
  let scale := powerOfTen (-exponent)
  let lower := interval.lower * scale
  let upper := interval.upper * scale
  if interval.closed then lower ≤ point && point ≤ upper
  else lower < point && point < upper

/-- Number of grid steps `10 ^ exponent` that fit below the value. -/
def stepsBelow (interval : RoundingInterval) (exponent : Int) : Nat :=
  interval.value * powerOfTen (-exponent) / (interval.den * powerOfTen exponent)

/-- The upper of the two grid points around the value is taken rather than the lower one. -/
def prefersUpper (interval : RoundingInterval) (tie : TieBreak) (count : Nat) (exponent : Int) :
    Bool :=
  let unit := interval.den * powerOfTen exponent
  let rest := interval.value * powerOfTen (-exponent) - count * unit
  if 2 * rest = unit then
    match tie with
    | .up => true
    | .even => count % 2 == 1
  else decide (unit < 2 * rest)

/-- The point of the grid with step `10 ^ exponent` that reads back and is nearest. -/
def nearest? (interval : RoundingInterval) (tie : TieBreak) (exponent : Int) : Option Nat :=
  let count := interval.stepsBelow exponent
  match interval.holds count exponent, interval.holds (count + 1) exponent with
  | true, true => some (if interval.prefersUpper tie count exponent then count + 1 else count)
  | true, false => some count
  | false, true => some (count + 1)
  | false, false => none

end RoundingInterval

/-- Number of decimal digits. -/
def digitCount (value : Nat) : Nat := (toString value).length

/-- The greatest `e` with `10 ^ e ≤ num / den`, for a positive quotient. -/
def leadingExponent (num den : Nat) : Int :=
  let guess := (digitCount num : Int) - digitCount den
  if den * powerOfTen guess ≤ num * powerOfTen (-guess) then guess else guess - 1

/-- The same value with no zero at the end of its digits. Every step drops a digit. -/
def Scientific.trimmed (value : Scientific) : Scientific :=
  go (digitCount value.digits) value
where
  go : Nat → Scientific → Scientific
    | 0, value => value
    | steps + 1, value =>
      if value.digits ≠ 0 ∧ value.digits % 10 = 0 then
        go steps { digits := value.digits / 10, exponent := value.exponent + 1 }
      else value

/-- The shortest decimal that reads back as `mantissa * 2 ^ exponent`. Seventeen digits always
suffice. -/
def shortest (tie : TieBreak) (mantissa : Nat) (exponent : Int) : Scientific :=
  if mantissa = 0 then { digits := 0, exponent := 0 }
  else
    let interval := RoundingInterval.around mantissa exponent
    let leading := leadingExponent interval.value interval.den
    let grid (digits : Nat) : Option Scientific :=
      let step := leading - digits
      (interval.nearest? tie step).map fun count => { digits := count, exponent := step }
    (((List.range 17).findSome? grid).getD { digits := 0, exponent := 0 }).trimmed

end ParallelLoop.Decimal
