/-
The compact decimal text of a number: six places, a half to the even neighbour,
no exponent, no trailing zero and no trailing point.

`sixPlaces` is the number of millionths, `Millionths.text` writes one, and
`compact` is the two together; infinities and missing values have words.
-/
import Montage.Number.Scalar

namespace Montage

/-- `s` with zeros in front up to `width` characters. -/
def padZeros (width : Nat) (s : List Char) : List Char :=
  List.replicate (width - s.length) '0' ++ s

/-- `s` without the zeros at its end. -/
def dropZeros (s : List Char) : List Char := (s.reverse.dropWhile (· = '0')).reverse

/-- The decimal digits of a number, `0` for zero. -/
def digits (n : Nat) : List Char := Nat.toDigits 10 n

namespace Millionths

/-- The places after the point of `n` millionths, without trailing zeros. -/
def places (n : Nat) : List Char := dropZeros (padZeros 6 (digits (n % 1000000)))

/-- The magnitude of a number of millionths. -/
def magnitude (n : Nat) : List Char :=
  match places n with
  | [] => digits (n / 1000000)
  | fraction => digits (n / 1000000) ++ '.' :: fraction

/-- A number of millionths as a decimal text. -/
def chars (n : Int) : List Char :=
  if n < 0 then '-' :: magnitude n.natAbs else magnitude n.natAbs

end Millionths

/-- The nearest number of millionths. -/
def sixPlaces (q : Rat) : Int := halfEven (q * 1000000)

/-- The compact text of what a number stands for. -/
def Exact.compact : Exact → String
  | .finite q => String.ofList (Millionths.chars (sixPlaces q))
  | .infinite negative => if negative then "-inf" else "inf"
  | .undefined => "nan"

/-- The compact text of a number. -/
def compact {α : Type} [Scalar α] (x : α) : String := (Scalar.exact x).compact

end Montage
