/-
What clips are called by.

A clip has an id, by which links, transitions and edits name it. Where clips are read an
id is a text; an edit may call a new clip by any value. What is said of clips is said over
a type of ids, a `Label`, so that one definition runs on values and is reasoned about on
texts.
-/
import Montage.Json.Shown
import Montage.Schema.Read

namespace Montage

/-- A type of ids, for data over a number format. -/
class Label (ι : Type) (α : Type) where
  /-- The id that a text is. -/
  fromText : String → ι
  /-- The id that a value is, if it can be one. -/
  ofData? : Json α → Option ι
  /-- An id as a value. -/
  data : ι → Json α

instance {α : Type} : Label String α where
  fromText s := s
  ofData?
    | .text s => some s
    | _ => none
  data := .text

instance {α : Type} : Label (Json α) α where
  fromText := .text
  ofData? j := some j
  data j := j

namespace Label

variable {ι : Type}

/-- The id that a text is. -/
def ofText (α : Type) [Label ι α] (s : String) : ι := @fromText ι α _ s

/-- Whether an id can be a key. -/
def isKey (α : Type) [Label ι α] (id : ι) : Bool := (data id : Json α).isKey

/-- Whether an id holds nothing. -/
def isVoid (α : Type) [Scalar α] [Label ι α] (id : ι) : Bool := (data id : Json α).isVoid

/-- How messages show an id. -/
def shown (α : Type) [Scalar α] [Label ι α] (id : ι) : String := (data id : Json α).named

variable {α : Type} [Label ι α]

/-- A text can be a key. -/
@[simp] theorem isKey_text (s : String) : isKey α s = true := rfl

/-- An id that is read, which must be a text. -/
def read (j : Json α) : Report ι := (Read.text j).map (ofText α)

/-- An id or null. -/
def optional : Option ι → Json α
  | some id => data id
  | none => .null

end Label

end Montage
