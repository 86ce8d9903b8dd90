/-
# Documents

A document is one value. It is put together from its tokens from left to right; the
containers that are still open are kept on a stack, so values may nest to any depth.
-/

import ParallelLoop.Json.Token

namespace ParallelLoop.Json

/-- What a document says. Nothing is read into a numeral or a quoted text yet. -/
inductive Value
  | null
  | bool (value : Bool)
  | numeral (value : Numeral)
  | quoted (codes : CodePoints)
  | array (items : List Value)
  | object (fields : List (CodePoints × Value))

/-- A container that has not been closed, with what it holds so far, the last first. -/
inductive OpenContainer
  | array (items : List Value)
  /-- The value of the last key is still to come. -/
  | object (fields : List (CodePoints × Value)) (key : CodePoints)

/-- What may come next in a document. -/
inductive Position
  /-- A value. -/
  | value
  /-- The first item of an array, or its end. -/
  | firstItem
  /-- The first key of an object, or its end. -/
  | firstKey
  /-- Another key of an object that holds these fields, the last first. -/
  | key (fields : List (CodePoints × Value))
  /-- The colon after a key. -/
  | colon (fields : List (CodePoints × Value)) (key : CodePoints)
  /-- A comma or the end of a container, after a value. -/
  | after (value : Value)

/-- A document up to some token. -/
structure Partial where
  containers : List OpenContainer
  position : Position

namespace Partial

/-- Before the first token. -/
def start : Partial := { containers := [], position := .value }

/-- A value begins, which is complete with this token unless the token opens a container. -/
def beginValue? (containers : List OpenContainer) : Token → Option Partial
  | .null => some { containers, position := .after .null }
  | .bool value => some { containers, position := .after (.bool value) }
  | .numeral value => some { containers, position := .after (.numeral value) }
  | .quoted codes => some { containers, position := .after (.quoted codes) }
  | .openArray => some { containers, position := .firstItem }
  | .openObject => some { containers, position := .firstKey }
  | _ => none

/-- A value is followed by another one in the same container, or ends the container. -/
def endValue? (value : Value) : List OpenContainer → Token → Option Partial
  | .array items :: outer, .comma =>
    some { containers := .array (value :: items) :: outer, position := .value }
  | .array items :: outer, .closeArray =>
    some { containers := outer, position := .after (.array (value :: items).reverse) }
  | .object fields name :: outer, .comma =>
    some { containers := outer, position := .key ((name, value) :: fields) }
  | .object fields name :: outer, .closeObject =>
    some { containers := outer, position := .after (.object ((name, value) :: fields).reverse) }
  | _, _ => none

/-- The document with one more token. -/
def next? (document : Partial) (token : Token) : Option Partial :=
  let containers := document.containers
  match document.position, token with
  | .value, token => beginValue? containers token
  | .firstItem, .closeArray => some { containers, position := .after (.array []) }
  | .firstItem, token => beginValue? (.array [] :: containers) token
  | .firstKey, .closeObject => some { containers, position := .after (.object []) }
  | .firstKey, .quoted key => some { containers, position := .colon [] key }
  | .key fields, .quoted key => some { containers, position := .colon fields key }
  | .colon fields key, .colon =>
    some { containers := .object fields key :: containers, position := .value }
  | .after value, token => endValue? value containers token
  | _, _ => none

/-- The value of a complete document. -/
def value? (document : Partial) : Option Value :=
  match document.containers, document.position with
  | [], .after value => some value
  | _, _ => none

end Partial

namespace Value

/-- Reads a document. -/
def parse? (text : String) : Option Value := do
  let tokens ← tokens? text
  let document ← tokens.foldlM Partial.next? Partial.start
  document.value?

/-! ## Reading values -/

/-- A truth value. -/
def bool? : Value → Option Bool
  | bool value => some value
  | _ => none

/-- A count. -/
def count? : Value → Option Nat
  | numeral value => value.count?
  | _ => none

/-- A count, or null for none. -/
def optionalCount? : Value → Option (Option Nat)
  | null => some none
  | value => value.count?.map some

/-- A floating point number. -/
def float? : Value → Option Float
  | numeral value => value.float?
  | _ => none

/-- A text. -/
def string? : Value → Option String
  | quoted codes => text? codes
  | _ => none

/-- The constant with this name. The name is written alone, or as the key of null. -/
def constant? {α : Type} (constants : List α) (name : α → String) (value : Value) : Option α := do
  let text ← match value with
    | quoted codes => text? codes
    | object [(key, null)] => text? key
    | _ => none
  constants.find? (name · = text)

/-- The values of named fields, without those of unknown names. An array gives the values in the
order of the names, and may stop early. An object gives each value once. -/
def fields? (names : List String) : Value → Option (List (String × Value))
  | array items => if items.length ≤ names.length then some (names.zip items) else none
  | object entries => do
    let entries ← entries.mapM fun (key, value) => (text? key).map (·, value)
    let known := entries.filter (names.contains ·.1)
    if (known.map Prod.fst).Nodup then some known else none
  | _ => none

end Value

/-- The value of a field, or the default of a field that is not there. -/
def readField {α : Type} (fields : List (String × Value)) (name : String)
    (read : Value → Option α) (default : α) : Option α :=
  match fields.lookup name with
  | some value => read value
  | none => some default

/-! ## Writing -/

/-- A truth value. -/
def writeBool (value : Bool) : String := if value then "true" else "false"

/-- A count, or null. -/
def writeOptionalCount (value : Option Nat) : String :=
  match value with
  | some count => toString count
  | none => "null"

/-- An object of written values. -/
def writeObject (fields : List (String × String)) : String :=
  "\x7b" ++ ",".intercalate (fields.map fun (name, value) => quote name ++ ":" ++ value) ++ "\x7d"

end ParallelLoop.Json
