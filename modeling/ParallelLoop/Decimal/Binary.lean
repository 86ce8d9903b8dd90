/-
# Floating point numbers as exact values

A binary floating point number is a signed multiple of a power of two, an infinity
or no number at all. This module takes the 64 bits of a number apart.
-/

namespace ParallelLoop.Decimal

/-- What the bits of a floating point number stand for. -/
inductive Binary
  | nan
  | infinite (negative : Bool)
  /-- The value `mantissa * 2 ^ exponent`, with its sign. -/
  | finite (negative : Bool) (mantissa : Nat) (exponent : Int)
  deriving DecidableEq, Repr

namespace Binary

/-- The bit in front of a mantissa of fifty-two bits, which is not stored. -/
def implicitBit : Nat := 0x10_0000_0000_0000

/-- The number that 64 bits stand for: a sign, eleven bits of exponent and fifty-two bits of
mantissa. -/
def ofBits (bits : UInt64) : Binary :=
  let word := bits.toNat
  let negative := decide (0x8000_0000_0000_0000 ≤ word)
  let exponent := word / implicitBit % 0x800
  let fraction := word % implicitBit
  if exponent = 2047 then if fraction = 0 then infinite negative else nan
  else if exponent = 0 then finite negative fraction (-1074)
  else finite negative (implicitBit + fraction) (Int.ofNat exponent - 1075)

/-- The exact value of a floating point number. -/
def ofFloat (value : Float) : Binary := ofBits value.toBits

/-- The numerator and the denominator of `mantissa * 2 ^ exponent`. -/
def quotient (mantissa : Nat) (exponent : Int) : Nat × Nat :=
  (mantissa <<< exponent.toNat, 1 <<< (-exponent).toNat)

end Binary

end ParallelLoop.Decimal
