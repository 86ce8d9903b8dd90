/-
# Machine words

Loop bounds are signed 64-bit integers, counts are unsigned ones. All arithmetic
on them is done on unbounded integers; what a word cannot hold is refused,
wrapped or clamped by a named operation of this module.
-/

namespace ParallelLoop.Word

/-- The largest unsigned 64-bit integer. -/
def maxCount : Nat := 0xFFFF_FFFF_FFFF_FFFF

/-- The largest signed 64-bit integer. -/
def maxSigned : Int := 0x7FFF_FFFF_FFFF_FFFF

/-- The smallest signed 64-bit integer. -/
def minSigned : Int := -0x8000_0000_0000_0000

/-- The value is a signed 64-bit integer. -/
def InSigned (value : Int) : Prop := minSigned ≤ value ∧ value ≤ maxSigned

instance (value : Int) : Decidable (InSigned value) :=
  inferInstanceAs (Decidable (_ ∧ _))

/-- The value, if it is a signed 64-bit integer. -/
def signed? (value : Int) : Option Int :=
  if InSigned value then some value else none

/-- The count, if it is an unsigned 64-bit integer. -/
def count? (value : Nat) : Option Nat :=
  if value ≤ maxCount then some value else none

/-- Reads the bits of an unsigned 64-bit integer as a signed one. -/
def reinterpret (value : Nat) : Int := Int.bmod value 0x1_0000_0000_0000_0000

/-- The signed 64-bit integer closest to the value. -/
def clamp (value : Int) : Int := max minSigned (min value maxSigned)

theorem signed?_eq_some_iff {value result : Int} :
    signed? value = some result ↔ InSigned value ∧ result = value := by
  unfold signed?
  split <;> simp_all [eq_comm]

theorem count?_eq_some_iff {value result : Nat} :
    count? value = some result ↔ value ≤ maxCount ∧ result = value := by
  unfold count?
  split
  · simp_all [eq_comm]
  · simp only [reduceCtorEq, false_iff, not_and]
    omega

/-- A count below the sign bit reads as itself. -/
theorem reinterpret_of_le {value : Nat} (small : (value : Int) ≤ maxSigned) :
    reinterpret value = value := by
  unfold reinterpret maxSigned at *
  exact Int.bmod_eq_of_le (by omega) (by omega)

theorem reinterpret_inSigned (value : Nat) : InSigned (reinterpret value) := by
  have lower := Int.le_bmod (x := value) (m := 0x1_0000_0000_0000_0000) (by omega)
  have upper := Int.bmod_lt (x := value) (m := 0x1_0000_0000_0000_0000) (by omega)
  unfold InSigned reinterpret minSigned maxSigned
  omega

/-- A signed integer is its own closest one. -/
theorem clamp_of_inSigned {value : Int} (within : InSigned value) : clamp value = value := by
  unfold clamp
  obtain ⟨lower, upper⟩ := within
  omega

end ParallelLoop.Word
