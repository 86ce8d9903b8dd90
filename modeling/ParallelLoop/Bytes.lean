/-
# Bytes

Stored data are lists of bytes. A word of a fixed number of bytes is stored with its
lowest byte first; reading a word takes exactly its bytes and leaves the rest.
-/

namespace ParallelLoop

/-- Stored data. -/
abbrev Bytes := List UInt8

namespace Bytes

/-- The lowest `width` bytes of a number, the lowest first. -/
def ofWord : (width : Nat) → Nat → Bytes
  | 0, _ => []
  | width + 1, value => UInt8.ofNat value :: ofWord width (value / 256)

/-- Reads a number of `width` bytes. Gives it with the bytes that follow. -/
def readWord? : (width : Nat) → Bytes → Option (Nat × Bytes)
  | 0, bytes => some (0, bytes)
  | _ + 1, [] => none
  | width + 1, byte :: rest =>
    (readWord? width rest).map fun (value, rest) => (byte.toNat + 256 * value, rest)

@[simp]
theorem length_ofWord (width value : Nat) : (ofWord width value).length = width := by
  induction width generalizing value with
  | zero => rfl
  | succ width ih => simp [ofWord, ih]

end Bytes

end ParallelLoop
