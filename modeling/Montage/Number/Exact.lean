/-
Exact numbers and their rounding to whole numbers.

An `Exact` is what a number of any format stands for: a rational, an infinity,
or nothing. `halfEven` rounds a rational to the nearest whole number, a half to
the even neighbour.
-/
namespace Montage

/-- What a number stands for. -/
inductive Exact where
  | finite (value : Rat)
  | infinite (negative : Bool)
  | undefined
deriving BEq, DecidableEq, Repr, Inhabited

/-- Whether one number is less than another; nothing is less or greater than one
that stands for nothing. -/
def Exact.less : Exact → Exact → Bool
  | .finite q, .finite r => decide (q < r)
  | .finite _, .infinite negative => !negative
  | .infinite negative, .finite _ => negative
  | .infinite negative, .infinite other => negative && !other
  | _, _ => false

/-- The nearest whole number; a half goes to the even neighbour. -/
def halfEven (q : Rat) : Int :=
  let below := q.floor
  let rest := q - below
  if rest < 1 / 2 then below
  else if 1 / 2 < rest then below + 1
  else if below % 2 = 0 then below
  else below + 1

/-- Why a number has no whole number nearest to it. -/
inductive NoWhole where
  | infinite
  | undefined
deriving BEq, DecidableEq, Repr, Inhabited

/-- The nearest whole number of a finite number, a half to the even neighbour. -/
def Exact.whole : Exact → Except NoWhole Int
  | .finite q => .ok (halfEven q)
  | .infinite _ => .error .infinite
  | .undefined => .error .undefined

end Montage
