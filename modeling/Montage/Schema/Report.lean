/-
What is wrong with a value, and where.

A `Report` is a checked value or the list of its problems. Reports combine like
independent checks: the problems of the parts are listed one after another, in
the order of the parts (`Report.problems_seq`).
-/
namespace Montage

/-- One step into a value. -/
inductive Place where
  | field (name : String)
  | item (index : Nat)
deriving BEq, DecidableEq, Repr, Inhabited

def Place.text : Place → String
  | .field name => name
  | .item index => toString index

/-- What a value can fail to be. -/
inductive Fault where
  | missing
  | notText
  | notUnicode
  | notNumber
  | notNumberText
  | notInteger
  | notIntegerText
  | integerSize
  | fractional
  | notFinite
  | notBoolean
  | notBooleanText
  | notListed
  | notRecord
  | notBody
  | notTuple
  | notList
  | notMapping
  | notMoment
  | notMomentText
  | notMomentCount
  | negative
  | notPositive
  | frozen
  | noSuchField
  | unreadable
deriving BEq, DecidableEq, Repr, Inhabited

/-- The name of a fault in reports. -/
def Fault.code : Fault → String
  | .missing => "missing"
  | .notText => "string_type"
  | .notUnicode => "string_unicode"
  | .notNumber => "float_type"
  | .notNumberText => "float_parsing"
  | .notInteger => "int_type"
  | .notIntegerText => "int_parsing"
  | .integerSize => "int_parsing_size"
  | .fractional => "int_from_float"
  | .notFinite => "finite_number"
  | .notBoolean => "bool_type"
  | .notBooleanText => "bool_parsing"
  | .notListed => "literal_error"
  | .notRecord => "model_type"
  | .notBody => "model_attributes_type"
  | .notTuple => "tuple_type"
  | .notList => "list_type"
  | .notMapping => "dict_type"
  | .notMoment => "datetime_type"
  | .notMomentText => "datetime_from_date_parsing"
  | .notMomentCount => "datetime_parsing"
  | .negative => "greater_than_equal"
  | .notPositive => "greater_than"
  | .frozen => "frozen_instance"
  | .noSuchField => "no_such_attribute"
  | .unreadable => "json_invalid"

/-- A fault and the way to it. -/
structure Problem where
  path : List Place
  fault : Fault
deriving BEq, DecidableEq, Repr, Inhabited

/-- `path.to.value:fault`. -/
def Problem.text (p : Problem) : String :=
  ".".intercalate (p.path.map Place.text) ++ ":" ++ p.fault.code

/-- The texts of problems, in order. -/
def problemsText (ps : List Problem) : String := "; ".intercalate (ps.map Problem.text)

/-- A checked value, or what is wrong with it. -/
inductive Report (β : Type) where
  | valid (value : β)
  | invalid (problems : List Problem)
deriving BEq, Repr

namespace Report

variable {β γ : Type}

instance [Inhabited β] : Inhabited (Report β) := ⟨.valid default⟩

/-- The problems of a report; none of a checked value. -/
def problems : Report β → List Problem
  | .valid _ => []
  | .invalid ps => ps

def value? : Report β → Option β
  | .valid b => some b
  | .invalid _ => none

def map (f : β → γ) : Report β → Report γ
  | .valid b => .valid (f b)
  | .invalid ps => .invalid ps

/-- Two independent checks: both values, or the problems of both. -/
def seq (f : Report (β → γ)) (b : Report β) : Report γ :=
  match f, b with
  | .valid f, .valid b => .valid (f b)
  | f, b => .invalid (f.problems ++ b.problems)

instance : Applicative Report where
  pure := .valid
  map := Report.map
  seq f b := Report.seq f (b ())

/-- A check that depends on a checked value. -/
def andThen (r : Report β) (f : β → Report γ) : Report γ :=
  match r with
  | .valid b => f b
  | .invalid ps => .invalid ps

/-- A single fault at the value itself. -/
def fault (f : Fault) : Report β := .invalid [⟨[], f⟩]

/-- A report on a part, seen from the whole. -/
def under (place : Place) : Report β → Report β
  | .valid b => .valid b
  | .invalid ps => .invalid (ps.map fun p => { p with path := place :: p.path })

/-- The checked items of a list, each under its index. -/
def items (check : γ → Report β) : Nat → List γ → Report (List β)
  | _, [] => .valid []
  | i, x :: rest => ((check x).under (.item i)).map List.cons |>.seq (items check (i + 1) rest)

theorem problems_seq (f : Report (β → γ)) (b : Report β) :
    (f.seq b).problems = f.problems ++ b.problems := by
  cases f <;> cases b <;> rfl

end Report

end Montage
