/-
Records of any kind, seen from outside.

A record has fields, and values that follow from them. Some kinds of record never
change; others take any value, or only valid ones. A note, whose name starts with an
underscore, can be left on every record and is not part of it; some of its notes a record
keeps for itself.
-/
import Montage.Schema.Read

namespace Montage

/-- Why a field of a record is not set. -/
inductive BadChange where
  /-- The value follows from others. -/
  | derived
  /-- The kind of record has no such field. -/
  | noField (name : String)
  /-- A value of the wrong sort. -/
  | illTyped
  | invalid (problems : List Problem)
deriving BEq, DecidableEq, Repr

/-- Whether a name is that of a note. -/
def isNote (name : String) : Bool := name.toList.head? == some '_'

/-- The names under which a record that changes tells what it was made from. -/
def originNames : List String := ["model_extra", "model_fields_set"]

variable {α : Type} {σ : Type}

/-- What a note holds once it is left. Of a record's own notes, its kind stays what it is,
all that it holds is an object, and which fields it was given is not for others to say. -/
def leaveNote (name : String) (value : Json α) : Except BadChange (Json α) :=
  match name, value with
  | "__class__", _ => .error .illTyped
  | "__dict__", .object fs => .ok (.object fs)
  | "__dict__", _ => .error .illTyped
  | "__fields_set__", _ => .error .derived
  | _, value => .ok value

/-- A field set to a value: what it holds then, and the record. -/
abbrev Setter (α σ : Type) := σ → String → Json α → Except BadChange (Json α × σ)

/-- A record that never changes. -/
def Setter.fixed : Setter α Unit := fun _ name value =>
  if isNote name then (leaveNote name value).map (·, ()) else .error (.invalid [⟨[.field name], .frozen⟩])

/-- A record of some fields that take any value. -/
def Setter.loose (names derived : List String) : Setter α Unit := fun _ name value =>
  if isNote name then (leaveNote name value).map (·, ())
  else if names.contains name then .ok (value, ())
  else if derived.contains name || originNames.contains name then .error .derived
  else .error (.noField name)

/-- What fields hold that are set in turn, whatever becomes of the ones before. -/
def Setter.each (set : Setter α σ) : σ → Fields α → List (Except BadChange (Json α))
  | _, [] => []
  | s, (name, value) :: rest =>
    match set s name value with
    | .ok (after, s) => .ok after :: set.each s rest
    | .error e => .error e :: set.each s rest

/-- The record after fields were set in turn, up to the first one that is not. -/
def Setter.all (set : Setter α σ) : σ → Fields α → σ × Option BadChange
  | s, [] => (s, none)
  | s, (name, value) :: rest =>
    match set s name value with
    | .ok (_, s) => set.all s rest
    | .error e => (s, some e)

end Montage
