/-
Numbers that remember how they were given.

A number that was given as a boolean counts as zero or one. It is still a boolean where
it is only moved about; what is calculated from it is a plain number.
-/
import Montage.Number.Scalar

namespace Montage

/-- A number, and whether it was given as a boolean. -/
structure Given (α : Type) where
  value : α
  isBoolean : Bool
deriving Repr

namespace Given

variable {α : Type} [Scalar α]

/-- A number that was given as one. -/
def number (x : α) : Given α := ⟨x, false⟩

instance : Scalar (Given α) where
  add x y := number (x.value + y.value)
  sub x y := number (x.value - y.value)
  mul x y := number (x.value * y.value)
  div x y := number (x.value / y.value)
  neg x := number (-x.value)
  lt x y := x.value < y.value
  le x y := x.value ≤ y.value
  beq x y := x.value == y.value
  ofScientific m s e := number (OfScientific.ofScientific m s e)
  decLt x y := Scalar.decLt x.value y.value
  decLe x y := Scalar.decLe x.value y.value
  exact x := Scalar.exact x.value
  nearest q := (Scalar.nearest q).map number
  infinity negative := (Scalar.infinity negative).map number
  notANumber := Scalar.notANumber.map number
  decimal digits exponent := number (Scalar.decimal digits exponent)
  ofBool b := ⟨Scalar.ofBool b, true⟩
  plain x := number x.value

end Given

end Montage
