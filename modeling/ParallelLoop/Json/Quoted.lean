/-
# Quoted texts

A text in a document stands between quotes. A backslash opens an escape; control
characters can only be written as escapes. A character beyond the first 65536 may be
written as two escapes, one for each surrogate.

A quoted text is kept as its code points, because one that nobody reads may hold a
surrogate on its own. `characters?` gives the text, if it is one.
-/

namespace ParallelLoop.Json

/-- The code points of a quoted text. -/
abbrev CodePoints := List Nat

/-- The number that a hexadecimal digit stands for. -/
def hexDigit? (c : Char) : Option Nat :=
  if c.isDigit then some (c.toNat - '0'.toNat)
  else if 'a' ≤ c ∧ c ≤ 'f' then some (c.toNat - 'a'.toNat + 10)
  else if 'A' ≤ c ∧ c ≤ 'F' then some (c.toNat - 'A'.toNat + 10)
  else none

/-- The code point of four hexadecimal digits. -/
def hexCode? (digits : List Char) : Option Nat :=
  digits.foldlM (fun code c => (hexDigit? c).map (16 * code + ·)) 0

/-- The character that a letter stands for after a backslash. -/
def escaped? : Char → Option Char
  | '"' => some '"'
  | '\\' => some '\\'
  | '/' => some '/'
  | 'b' => some '\x08'
  | 'f' => some '\x0C'
  | 'n' => some '\n'
  | 'r' => some '\r'
  | 't' => some '\t'
  | _ => none

/-- Reads to the closing quote. Gives the code points, after those read before, and the
characters that follow. -/
def readQuoted? (codes : CodePoints) : List Char → Option (CodePoints × List Char)
  | [] => none
  | '"' :: rest => some (codes.reverse, rest)
  | '\\' :: 'u' :: a :: b :: c :: d :: rest =>
    match hexCode? [a, b, c, d] with
    | some code => readQuoted? (code :: codes) rest
    | none => none
  | '\\' :: c :: rest =>
    match escaped? c with
    | some c => readQuoted? (c.toNat :: codes) rest
    | none => none
  | c :: rest =>
    if c = '\\' ∨ c.toNat < 0x20 then none else readQuoted? (c.toNat :: codes) rest

/-- Reading uses up at least the closing quote. -/
theorem length_lt_of_readQuoted? {codes result : CodePoints} {chars rest : List Char}
    (read : readQuoted? codes chars = some (result, rest)) : rest.length < chars.length := by
  fun_induction readQuoted? codes chars with
  | case1 => simp at read
  | case2 => simp_all
  | case3 codes a b c d tail code _ ih =>
    have := ih read
    simp only [List.length_cons]
    omega
  | case4 => simp at read
  | case5 codes c tail _ _ _ ih =>
    have := ih read
    simp only [List.length_cons]
    omega
  | case6 => simp at read
  | case7 => simp at read
  | case8 codes c tail _ _ _ _ ih =>
    have := ih read
    simp only [List.length_cons]
    omega

/-- The code point is the first half of a pair. -/
def isLeading (code : Nat) : Bool := 0xD800 ≤ code && code ≤ 0xDBFF

/-- The code point is the second half of a pair. -/
def isTrailing (code : Nat) : Bool := 0xDC00 ≤ code && code ≤ 0xDFFF

/-- The characters of a quoted text, unless a surrogate stands alone in it. They follow those
found before. -/
def characters? (found : List Char) : CodePoints → Option (List Char)
  | [] => some found.reverse
  | code :: rest =>
    if isLeading code then
      match rest with
      | next :: rest =>
        if isTrailing next then
          let pair := 0x10000 + (code - 0xD800) * 0x400 + (next - 0xDC00)
          characters? (Char.ofNat pair :: found) rest
        else none
      | [] => none
    else if isTrailing code then none
    else characters? (Char.ofNat code :: found) rest

/-- The text of these code points, if it is one. -/
def text? (codes : CodePoints) : Option String := (characters? [] codes).map String.ofList

/-! ## Writing -/

/-- The four hexadecimal digits of a code point. -/
def hexCode (code : Nat) : String :=
  String.ofList (([0x1000, 0x100, 0x10, 1] : List Nat).map fun unit =>
    Nat.digitChar (code / unit % 16))

/-- A character between quotes. -/
def quoteChar (c : Char) : String :=
  match c with
  | '"' => "\\\""
  | '\\' => "\\\\"
  | '\x08' => "\\b"
  | '\x0C' => "\\f"
  | '\n' => "\\n"
  | '\r' => "\\r"
  | '\t' => "\\t"
  | c => if c.toNat < 0x20 then "\\u" ++ hexCode c.toNat else c.toString

/-- A text between quotes. -/
def quote (text : String) : String := "\"" ++ String.join (text.toList.map quoteChar) ++ "\""

end ParallelLoop.Json
