/-
JSON values as texts, in ASCII.

Fields and items are separated by commas alone; a character outside printable
ASCII is written as one or two escapes of four hexadecimal digits, half of a pair
that stands alone as one. How a scalar is written is left to the caller.
-/
import Montage.Json.Value
import Montage.Text.Half

namespace Montage.Json

/-- Four hexadecimal digits. -/
def hexUnit (n : Nat) : String :=
  let ds := Nat.toDigits 16 n
  String.ofList (List.replicate (4 - ds.length) '0' ++ ds)

/-- A code point inside quotes. -/
def printCode (n : Nat) : String :=
  match Char.ofNat n with
  | '"' => "\\\""
  | '\\' => "\\\\"
  | '\n' => "\\n"
  | '\r' => "\\r"
  | '\t' => "\\t"
  | c =>
    if 0x20 ≤ n ∧ n < 0x7f then c.toString
    else if n < 0x10000 then "\\u" ++ hexUnit n
    else
      "\\u" ++ hexUnit (0xd800 + (n - 0x10000) / 0x400) ++
        "\\u" ++ hexUnit (0xdc00 + (n - 0x10000) % 0x400)

/-- A text in quotes. -/
def printText (s : String) : String :=
  "\"" ++ String.join ((codes s).map printCode) ++ "\""

variable {α : Type} (number : α → String)

mutual

/-- A value as a text. -/
def print : Json α → String
  | .null => "null"
  | .bool b => if b then "true" else "false"
  | .int n => toString n
  | .real x => number x
  | .text s => printText s
  | .list items => "[" ++ printItems items ++ "]"
  | .object fields => "\x7b" ++ printFields fields ++ "\x7d"

/-- The items of a list. -/
def printItems : List (Json α) → String
  | [] => ""
  | [item] => print item
  | item :: rest => print item ++ "," ++ printItems rest

/-- The fields of an object. -/
def printFields : List (String × Json α) → String
  | [] => ""
  | [(name, v)] => printText name ++ ":" ++ print v
  | (name, v) :: rest => printText name ++ ":" ++ print v ++ "," ++ printFields rest

end

end Montage.Json
