/-
# Tokens

A document is a sequence of tokens with blanks between them. Words and numerals reach
as far as their characters do.
-/

import ParallelLoop.Json.Numeral
import ParallelLoop.Json.Quoted

namespace ParallelLoop.Json

/-- The smallest parts of a document. -/
inductive Token
  | openArray | closeArray | openObject | closeObject | comma | colon
  | null
  | bool (value : Bool)
  | numeral (value : Numeral)
  | quoted (codes : CodePoints)
  deriving DecidableEq, Repr

/-- The characters that may stand between tokens. -/
def isSpace (c : Char) : Bool := c = ' ' || c = '\n' || c = '\t' || c = '\r'

namespace Token

/-- The token that is this character. -/
def ofMark? : Char → Option Token
  | '[' => some openArray
  | ']' => some closeArray
  | '\x7b' => some openObject
  | '\x7d' => some closeObject
  | ',' => some comma
  | ':' => some colon
  | _ => none

/-- The token that is this word. -/
def ofWord? (letters : List Char) : Option Token :=
  if letters = "null".toList then some null
  else if letters = "true".toList then some (bool true)
  else if letters = "false".toList then some (bool false)
  else none

/-- The tokens of a text, after those found before. -/
def scan (found : List Token) (chars : List Char) : Option (List Token) :=
  match chars with
  | [] => some found.reverse
  | c :: rest =>
    if isSpace c then scan found rest
    else if c = '"' then
      match _ : readQuoted? [] rest with
      | some (codes, rest) => scan (quoted codes :: found) rest
      | none => none
    else if c.isLower then
      match ofWord? (c :: rest.takeWhile Char.isLower) with
      | some token => scan (token :: found) (rest.dropWhile Char.isLower)
      | none => none
    else if isNumeralChar c then
      match Numeral.ofChars? (c :: rest.takeWhile isNumeralChar) with
      | some value => scan (numeral value :: found) (rest.dropWhile isNumeralChar)
      | none => none
    else
      match ofMark? c with
      | some token => scan (token :: found) rest
      | none => none
termination_by chars.length
decreasing_by
  all_goals simp only [List.length_cons]
  · omega
  · have := length_lt_of_readQuoted? ‹_›
    omega
  · have := (List.dropWhile_sublist Char.isLower (l := rest)).length_le
    omega
  · have := (List.dropWhile_sublist isNumeralChar (l := rest)).length_le
    omega
  · omega

end Token

/-- The tokens of a text, if it consists of tokens. -/
def tokens? (text : String) : Option (List Token) := Token.scan [] text.toList

end ParallelLoop.Json
