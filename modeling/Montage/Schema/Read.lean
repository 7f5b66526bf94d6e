/-
Values read from data, leniently.

A number may come as a boolean or as text, a boolean as a number or a word, a
whole number as a text or as a number without fraction; text and listed words
are taken as they are. A field may be required, have a default, or be null.
-/
import Montage.Json.Value
import Montage.Number.Numeral
import Montage.Schema.Report
import Montage.Text.Half

namespace Montage

/-- A finite choice, each alternative with its word. -/
class Listed (β : Type) where
  all : List β
  word : β → String

namespace Listed

variable {β : Type} [Listed β]

/-- The alternative with a word. -/
def ofWord? (s : String) : Option β := all.find? fun b => word b == s

end Listed

namespace Read

variable {α : Type} [Scalar α] {β : Type}

/-- A text. -/
def text : Json α → Report String
  | .text s => .valid s
  | _ => .fault .notText

/-- What a text says, which must be one of characters. -/
def words (s : String) (read : String → Report β) : Report β :=
  if isWritable s then read s else .fault .notUnicode

/-- A number. -/
def number : Json α → Report α
  | .real x => .valid (Scalar.plain x)
  | .int n =>
    match Scalar.nearest (n : Rat) with
    | some x => .valid x
    | none => .fault .notNumber
  | .bool b => .valid (Scalar.plain (Scalar.ofBool b))
  | .text s => words s fun s =>
    match readNumber? s with
    | some x => .valid x
    | none => .fault .notNumberText
  | _ => .fault .notNumber

/-- Whether a whole number fits 64 bits with a sign. -/
def fitsWord (n : Int) : Bool := -(Binary64.signBit : Int) ≤ n && n < Binary64.signBit

/-- A number without fraction, as a whole number; either bound of 64 bits is one too
far. -/
def wholeOf (x : α) : Except Fault Int :=
  match Scalar.exact x with
  | .finite q =>
    if q.den ≠ 1 then .error .fractional
    else if q.num.natAbs < Binary64.signBit then .ok q.num
    else .error .integerSize
  | _ => .error .notFinite

/-- A whole number. -/
def integer : Json α → Report Int
  | .int n => .valid n
  | .bool b => .valid (if b then 1 else 0)
  | .real x =>
    match wholeOf x with
    | .ok n => .valid n
    | .error f => .fault f
  | .text s => words s fun s =>
    match readInteger s with
    | .value n => .valid n
    | .malformed => .fault .notIntegerText
    | .tooLong => .fault .integerSize
  | _ => .fault .notInteger

/-- The words for true and for false, in lower case. -/
def boolWord? (s : String) : Option Bool :=
  if ["1", "true", "t", "yes", "y", "on"].contains s then some true
  else if ["0", "false", "f", "no", "n", "off"].contains s then some false
  else none

/-- Zero or one as a boolean. -/
def boolOfInt (n : Int) : Report Bool :=
  if n = 0 then .valid false
  else if n = 1 then .valid true
  else .fault .notBooleanText

/-- A boolean. -/
def boolean : Json α → Report Bool
  | .bool b => .valid b
  | .int n => if fitsWord n then boolOfInt n else .fault .notBoolean
  | .real x =>
    match wholeOf x with
    | .ok n => boolOfInt n
    | .error _ => .fault .notBoolean
  | .text s => words s fun s =>
    match boolWord? (String.ofList (lower s.toList)) with
    | some b => .valid b
    | none => .fault .notBooleanText
  | _ => .fault .notBoolean

/-- One of a finite choice. -/
def choice [Listed β] : Json α → Report β
  | .text s => words s fun s =>
    match Listed.ofWord? s with
    | some b => .valid b
    | none => .fault .notListed
  | _ => .fault .notListed

/-- A value or null. -/
def optional (read : Json α → Report β) : Json α → Report (Option β)
  | .null => .valid none
  | j => (read j).map some

/-- A list, with its own name for a value that is none. -/
def list (fault : Fault) (read : Json α → Report β) : Json α → Report (List β)
  | .list items => Report.items read 0 items
  | _ => .fault fault

/-- An object taken as it is. -/
def mapping : Json α → Report (Fields α)
  | .object fields => .valid fields
  | _ => .fault .notMapping

/-- A record read from its fields. -/
def record (read : Fields α → Report β) : Json α → Report β
  | .object fields => read fields
  | _ => .fault .notRecord

/-- A number that is zero or more. -/
def nonnegative (j : Json α) : Report α :=
  (number j).andThen fun x => if 0.0 ≤ x then .valid x else .fault .negative

/-- A number above zero. -/
def positive (j : Json α) : Report α :=
  (number j).andThen fun x => if 0.0 < x then .valid x else .fault .notPositive

end Read

/-- What stands at a place in a value, as far as the value goes. -/
def Json.follow {α : Type} : Json α → List Place → Json α
  | j, [] => j
  | .object fs, .field name :: rest =>
    match Fields.get? fs name with
    | some j => j.follow rest
    | none => .object fs
  | .list js, .item index :: rest =>
    match js[index]? with
    | some j => j.follow rest
    | none => .list js
  | j, _ => j

namespace Fields

variable {α β : Type}

/-- A field that must be there. -/
def require (fs : Fields α) (name : String) (read : Json α → Report β) : Report β :=
  match fs.get? name with
  | some j => (read j).under (.field name)
  | none => .invalid [⟨[.field name], .missing⟩]

/-- A field with a default. -/
def withDefault (fs : Fields α) (name : String) (default : β) (read : Json α → Report β) :
    Report β :=
  match fs.get? name with
  | some j => (read j).under (.field name)
  | none => .valid default

end Fields

end Montage
