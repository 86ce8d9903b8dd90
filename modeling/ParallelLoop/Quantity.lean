/-
# Quantities

Sizes in memory and the factors that scale them are quantities: numbers that can be
multiplied, divided and compared, and that counts are drawn from. Planning needs no
more than that, so it is the same for floating point numbers, which the program
computes with, and for exact rational numbers, about which more can be said.

Counts are machine words. A quantity too large for one gives the largest count.
-/

import ParallelLoop.Word
import ParallelLoop.Decimal.Format

namespace ParallelLoop

/-- Numbers that can measure memory. -/
class Quantity (α : Type) extends Mul α, Div α, LE α, LT α where
  decidableLE (a b : α) : Decidable (a ≤ b)
  decidableLT (a b : α) : Decidable (a < b)
  /-- No memory at all. -/
  zero : α
  /-- The quantity of this count. -/
  ofNat : Nat → α
  /-- The greatest count that is not above the quantity. -/
  floor : α → Nat
  /-- The least count that is not below the quantity. -/
  ceil : α → Nat
  /-- How many footprints of one size fit into a budget. -/
  fits (budget footprint : α) : Nat
  /-- A number of bytes in whole megabytes. -/
  megabytes : α → String

namespace Quantity

variable {α : Type} [Quantity α]

instance (a b : α) : Decidable (a ≤ b) := decidableLE a b

instance (a b : α) : Decidable (a < b) := decidableLT a b

/-- The larger of two quantities: the second one unless it is below the first or cannot be compared
with it. -/
def larger (a b : α) : α := if a ≤ b then b else a

/-- Bytes of a megabyte. -/
def bytesPerMegabyte : Nat := 1024 * 1024

/-- Floating point numbers. A quotient that is no number holds no footprint, and an infinite one
holds the largest count. -/
instance : Quantity Float where
  decidableLE a b := inferInstanceAs (Decidable (a ≤ b))
  decidableLT a b := inferInstanceAs (Decidable (a < b))
  zero := 0
  ofNat count := (UInt64.ofNat count).toFloat
  floor value := value.toUInt64.toNat
  ceil value := value.ceil.toUInt64.toNat
  fits budget footprint := (budget / footprint).floor.toUInt64.toNat
  megabytes value := Decimal.rounded (value / 1048576) ++ "MB"

/-- Exact rational numbers. Any number of empty footprints fits. -/
instance : Quantity Rat where
  decidableLE a b := inferInstanceAs (Decidable (a ≤ b))
  decidableLT a b := inferInstanceAs (Decidable (a < b))
  zero := 0
  ofNat count := count
  floor value := min value.floor.toNat Word.maxCount
  ceil value := min value.ceil.toNat Word.maxCount
  fits budget footprint :=
    if footprint = 0 then Word.maxCount
    else min (budget / footprint).floor.toNat Word.maxCount
  megabytes value :=
    Decimal.sign (decide (value < 0)) ++
      toString (Decimal.roundHalfEven value.num.natAbs (value.den * bytesPerMegabyte)) ++ "MB"

end Quantity

end ParallelLoop
