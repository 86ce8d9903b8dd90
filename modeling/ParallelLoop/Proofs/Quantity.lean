/-
# Laws of quantities

A plan that is optimized twice is estimated in two forms: with a parallel loop that has one
worker, and with the sequential loop that it was demoted to. Both estimates are the same
because one times a quantity is that quantity. `Quantity.IsLawful` names this law and what
else estimates rely on.

Products of counts stay machine words because they are cut down to a quantity that is rounded
to a word. That much is `Quantity.IsWordSized`.
-/

import ParallelLoop.Quantity

namespace ParallelLoop

namespace Quantity

/-- What estimates of memory rely on. -/
class IsLawful (α : Type) [Quantity α] : Prop where
  one_mul (a : α) : ofNat 1 * a = a
  zero_le_zero : (zero : α) ≤ zero
  zero_le_of_le {a b : α} : zero ≤ a → a ≤ b → zero ≤ b

instance : IsLawful Rat where
  one_mul a := by
    change ((1 : Nat) : Rat) * a = a
    simp
  zero_le_zero := Rat.le_refl
  zero_le_of_le := Rat.le_trans

/-- What the numbers of workers rely on. -/
class IsWordSized (α : Type) [Quantity α] : Prop where
  ceil_le (a : α) : ceil a ≤ Word.maxCount

instance : IsWordSized Rat where
  ceil_le _ := Nat.min_le_right ..

end Quantity

end ParallelLoop
