/-
Values of JSON, over a number format.

A whole number keeps its digits whatever their count; any other number is a
scalar. An object is a list of fields in the order they were first written, and
writing a field again replaces its value in place. Values are equal if they stand
for the same: numbers by what they count, objects whatever the order of their fields.
-/
import Montage.Number.Scalar
import Montage.Text.Half

namespace Montage

/-- A JSON value. -/
inductive Json (α : Type) where
  | null
  | bool (value : Bool)
  | int (value : Int)
  | real (value : α)
  | text (value : String)
  | list (items : List (Json α))
  | object (fields : List (String × Json α))
deriving Repr

instance {α : Type} : Inhabited (Json α) := ⟨.null⟩

/-- Why a value cannot be calculated with. -/
inductive NoNumber where
  | illTyped
  | tooLarge
deriving BEq, DecidableEq, Repr, Inhabited

/-- The fields of an object, in order. -/
abbrev Fields (α : Type) := List (String × Json α)

namespace Fields

variable {α : Type}

/-- The value of a field. -/
def get? (fs : Fields α) (name : String) : Option (Json α) :=
  (fs.find? (·.1 == name)).map (·.2)

/-- Whether there is a field of this name. -/
def has (fs : Fields α) (name : String) : Bool := fs.any (·.1 == name)

/-- The fields with one of them set: in place if it is there, else at the end. -/
def put (fs : Fields α) (name : String) (value : Json α) : Fields α :=
  if fs.has name then fs.map fun f => if f.1 == name then (name, value) else f
  else fs ++ [(name, value)]

/-- The fields with others set in turn. -/
def override (fs changes : Fields α) : Fields α :=
  changes.foldl (fun fs change => fs.put change.1 change.2) fs

/-- The fields without one. -/
def drop (fs : Fields α) (name : String) : Fields α := fs.filter (·.1 != name)

end Fields

namespace Json

variable {α : Type}

/-- The value of a field of an object. -/
def get? (j : Json α) (name : String) : Option (Json α) :=
  match j with
  | .object fields => Fields.get? fields name
  | _ => none

/-- What a value is made of: the items of a list, the characters of a text, the names of
an object; none for a value without parts. -/
def elements? : Json α → Option (List (Json α))
  | .list items => some items
  | .text s => some ((codes s).map fun n => .text (ofCodes [n]))
  | .object fields => some (fields.map fun f => .text f.1)
  | _ => none

/-- Whether a value holds nothing: null, false, zero, or empty. -/
def isVoid [Scalar α] : Json α → Bool
  | .null => true
  | .bool b => !b
  | .int n => n == 0
  | .real x => x == 0.0
  | .text s => s.isEmpty
  | .list items => items.isEmpty
  | .object fields => fields.isEmpty

/-- A whole number among data; a boolean is zero or one. -/
def whole? : Json α → Option Int
  | .int n => some n
  | .bool b => some (if b then 1 else 0)
  | _ => none

/-- The number of a value to calculate with; a boolean is zero or one. -/
def measure [Scalar α] : Json α → Except NoNumber α
  | .real x => .ok x
  | .int n =>
    match Scalar.nearest (n : Rat) with
    | some x => .ok x
    | none => .error .tooLarge
  | .bool b => .ok (Scalar.ofBool b)
  | _ => .error .illTyped

mutual

/-- Whether a value can be written in bytes: no half of a pair stands alone in it. -/
def isWritable : Json α → Bool
  | .text s => Montage.isWritable s
  | .list items => areWritable items
  | .object fields => haveWritable fields
  | _ => true

/-- Whether all items of a list can be written. -/
def areWritable : List (Json α) → Bool
  | [] => true
  | j :: rest => j.isWritable && areWritable rest

/-- Whether all names and values of an object can be written. -/
def haveWritable : List (String × Json α) → Bool
  | [] => true
  | (name, j) :: rest => Montage.isWritable name && j.isWritable && haveWritable rest

end

/-- What a number or a boolean stands for; a boolean is zero or one. -/
def quantity? [Scalar α] : Json α → Option Exact
  | .bool b => some (.finite (if b then 1 else 0))
  | .int n => some (.finite n)
  | .real x => some (Scalar.exact x)
  | _ => none

mutual

/-- Whether two values are equal. -/
def same [Scalar α] : Json α → Json α → Bool
  | .null, .null => true
  | .text s, .text t => s == t
  | .list items, .list others => sameItems items others
  | .object fields, .object others => fields.length == others.length && within fields others
  | j, k =>
    match quantity? j, quantity? k with
    | some x, some y => x == y
    | _, _ => false

/-- Whether the items of two lists are equal in turn. -/
def sameItems [Scalar α] : List (Json α) → List (Json α) → Bool
  | [], [] => true
  | j :: rest, k :: others => same j k && sameItems rest others
  | _, _ => false

/-- Whether each of some fields is among others with an equal value. -/
def within [Scalar α] : List (String × Json α) → List (String × Json α) → Bool
  | [], _ => true
  | (name, j) :: rest, others =>
    (match Fields.get? others name with
      | some k => same j k
      | none => false) && within rest others

end

instance [Scalar α] : BEq (Json α) := ⟨same⟩

/-- A text or null. -/
def optionalText : Option String → Json α
  | some s => .text s
  | none => .null

/-- A number or null. -/
def optionalReal : Option α → Json α
  | some x => .real x
  | none => .null

/-- A whole number or null. -/
def optionalInt : Option Int → Json α
  | some n => .int n
  | none => .null

/-- A list of texts. -/
def texts (ss : List String) : Json α := .list (ss.map .text)

end Json

/-- Whether there is a field of a name and it holds something. -/
def Fields.holds {α : Type} [Scalar α] (fs : Fields α) (name : String) : Bool :=
  (fs.get? name).any (!·.isVoid)

end Montage
