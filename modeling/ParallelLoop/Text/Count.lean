/-
# Counts written in digits

A count is written in decimal digits, perhaps after a plus sign. The plan tree
keeps trip counts as text, so reading one back may fail.
-/

import ParallelLoop.Word
import ParallelLoop.Text.Blank

namespace ParallelLoop.Text

/-- The number that a digit stands for. -/
def digit? (c : Char) : Option Nat :=
  if c.isDigit then some (c.toNat - '0'.toNat) else none

/-- Appends the digits to the number read so far. -/
def readDigits (value : Nat) : List Char → Option Nat
  | [] => some value
  | c :: rest => (digit? c).bind fun d => readDigits (10 * value + d) rest

/-- Reads one or more digits. -/
def readNumber? : List Char → Option Nat
  | [] => none
  | digits => readDigits 0 digits

/-- Reads a 64-bit count: digits, perhaps after a plus sign. -/
def count? (text : String) : Option Nat :=
  let digits := match text.toList with
    | '+' :: rest => rest
    | chars => chars
  (readNumber? digits).bind Word.count?

end ParallelLoop.Text
