/-
# Rounding quotients

A quotient of two naturals is rounded to the nearest natural. A quotient in the
middle between two naturals goes to the even one.
-/

namespace ParallelLoop.Decimal

/-- The natural nearest to `num / den`; a half goes to the even neighbour. -/
def roundHalfEven (num den : Nat) : Nat :=
  let floor := num / den
  let twice := 2 * (num % den)
  if twice < den then floor
  else if den < twice then floor + 1
  else floor + floor % 2

end ParallelLoop.Decimal
