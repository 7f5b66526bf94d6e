/-
The numbers that times, lengths and percentages are written in.

All editing and layout is written over `Scalar`, with its operations in a fixed
order, so that one definition runs on doubles and is reasoned about on
rationals. A scalar has its arithmetic and order, the exact number it stands
for, and the way back from an exact number. It may remember that a number was given as
a boolean; what is calculated from such a number, or read from it, is a plain one.
-/
import Montage.Number.Exact
import Montage.Number.Binary64

namespace Montage

/-- A number format. `==` compares values and holds of a missing value and
itself. -/
class Scalar (α : Type) extends Add α, Sub α, Mul α, Div α, Neg α, LT α, LE α, BEq α,
    OfScientific α where
  decLt : ∀ a b : α, Decidable (a < b)
  decLe : ∀ a b : α, Decidable (a ≤ b)
  /-- What a number stands for. -/
  exact : α → Exact
  /-- The number nearest to a rational; none beyond the largest finite number. -/
  nearest : Rat → Option α
  /-- The infinity of a sign, in a format that has one. -/
  infinity : Bool → Option α
  /-- The number that stands for nothing, in a format that has one. -/
  notANumber : Option α
  /-- The number nearest to `digits * 10^exponent`, an infinity beyond the largest. -/
  decimal : Nat → Int → α
  /-- A boolean as a number: zero or one. -/
  ofBool : Bool → α
  /-- The same number, however it was given. -/
  plain : α → α

namespace Scalar

variable {α : Type} [Scalar α]

instance (a b : α) : Decidable (a < b) := decLt a b
instance (a b : α) : Decidable (a ≤ b) := decLe a b

/-- Whether a number stands for nothing. -/
def isUndefined (x : α) : Bool := exact x == .undefined

/-- The first of two numbers unless the second is greater. -/
def larger (a b : α) : α := if a < b then b else a

/-- The first of two numbers unless the second is less. -/
def smaller (a b : α) : α := if b < a then b else a

/-- `value` moved into `lo .. hi`. -/
def clamp (value lo hi : α) : α := larger lo (smaller hi value)

/-- How far apart two numbers are. -/
def distance (a b : α) : α := if a < b then b - a else a - b

/-- The greatest number of a list, the first among equals. -/
def greatest? : List α → Option α
  | [] => none
  | x :: rest => some (rest.foldl larger x)

/-- The greatest number of a list, zero for the empty list. -/
def greatest (xs : List α) : α := (greatest? xs).getD 0.0

/-- The numbers of a list, each once, where it stands first. -/
def distinct (xs : List α) : List α :=
  (xs.foldl (fun seen x => if seen.any (x == ·) then seen else x :: seen) []).reverse

/-- The sum from left to right. -/
def sum (xs : List α) : α := xs.foldl (· + ·) 0.0

end Scalar

/-- `digits * 10^exponent`. -/
def decimalValue (digits : Nat) (exponent : Int) : Rat :=
  if 0 ≤ exponent then (digits * Nat.pow 10 exponent.toNat : Nat)
  else mkRat digits (Nat.pow 10 (-exponent).toNat)

/-- The double nearest to `digits * 10^exponent`. Beyond a thousand places the
answer is an infinity or zero whatever the digits. -/
def Binary64.ofDecimal (digits : Nat) (exponent : Int) : Float :=
  let top := exponent + (Nat.toDigits 10 digits).length
  if digits = 0 ∨ top < -1000 then Float.ofBits 0
  else if 1000 < top then infinity false
  else (nearest (decimalValue digits exponent)).getD (infinity false)

instance : Scalar Rat where
  decLt := inferInstance
  decLe := inferInstance
  exact := .finite
  nearest := some
  infinity _ := none
  notANumber := none
  decimal := decimalValue
  ofBool b := if b then 1 else 0
  plain x := x

instance : Scalar Float where
  decLt := inferInstance
  decLe := inferInstance
  beq a b := a == b || (a.isNaN && b.isNaN)
  exact := Binary64.exact
  nearest := Binary64.nearest
  infinity negative := some (Binary64.infinity negative)
  notANumber := some Binary64.notANumber
  decimal := Binary64.ofDecimal
  ofBool b := if b then 1 else 0
  plain x := x

end Montage
