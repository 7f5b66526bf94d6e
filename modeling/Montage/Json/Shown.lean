/-
Values as messages show them.

A text that is named by itself stands as it is; inside a list or an object it is
put in quotes. Null, true and false have words of their own.
-/
import Montage.Json.Value
import Montage.Number.Shortest
import Montage.Text.Quoted

namespace Montage.Json

variable {α : Type} [Scalar α]

mutual

/-- A value inside another one. -/
def shown : Json α → String
  | .null => "None"
  | .bool b => if b then "True" else "False"
  | .int n => toString n
  | .real x => Scalar.text x
  | .text s => Quoted.text s
  | .list items => "[" ++ shownItems items ++ "]"
  | .object fields => "\x7b" ++ shownFields fields ++ "\x7d"

/-- The items of a list. -/
def shownItems : List (Json α) → String
  | [] => ""
  | [item] => shown item
  | item :: rest => shown item ++ ", " ++ shownItems rest

/-- The fields of an object. -/
def shownFields : List (String × Json α) → String
  | [] => ""
  | [(name, v)] => Quoted.text name ++ ": " ++ shown v
  | (name, v) :: rest => Quoted.text name ++ ": " ++ shown v ++ ", " ++ shownFields rest

end

/-- A value by itself. -/
def named : Json α → String
  | .text s => s
  | j => shown j

/-- Whether a value can be a key: lists and objects cannot. -/
def isKey : Json α → Bool
  | .list _ => false
  | .object _ => false
  | _ => true

end Montage.Json
