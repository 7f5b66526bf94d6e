/-
The shortest decimal text that reads back as the same double.

A positive double is `m * 2^e`; the reals nearer to it than to any other double
form an interval around it, with its ends when `m` is even. `Shortest.choose`
tries one, two, up to seventeen digits: on each grid of decimals it looks at the
double's two neighbours and takes the nearer one that lies in the interval.
`Layout` says how the chosen digits are laid out.
-/
import Montage.Number.Scalar
import Montage.Number.Places

namespace Montage

namespace Shortest

/-- The reals that round to one double. -/
structure Cell where
  value : Rat
  low : Rat
  high : Rat
  closed : Bool

def Cell.contains (c : Cell) (q : Rat) : Bool :=
  if c.closed then c.low ≤ q && q ≤ c.high else c.low < q && q < c.high

/-- The cell of `m * 2^e`, `m` positive; below a power of two the doubles lie
twice as dense. -/
def cell (m : Nat) (e : Int) : Cell :=
  let unit := Binary64.twoPow e
  let value := (m : Rat) * unit
  let below := if m = Binary64.fractions ∧ -1074 < e then unit / 4 else unit / 2
  ⟨value, value - below, value + unit / 2, m % 2 = 0⟩

/-- `10^k` for any whole `k`. -/
def tenPow (k : Int) : Rat :=
  if 0 ≤ k then (Nat.pow 10 k.toNat : Rat) else 1 / (Nat.pow 10 (-k).toNat : Rat)

/-- A decimal `digits * 10^exponent`. -/
structure Decimal where
  digits : Nat
  exponent : Int
deriving BEq, DecidableEq, Repr, Inhabited

/-- The point of the grid of multiples of `10^k` that lies in the cell nearest
to its value, if one does; an exact tie goes to the even multiple. -/
def onGrid (c : Cell) (k : Int) : Option Decimal :=
  let scaled := c.value / tenPow k
  let lower := scaled.floor.toNat
  let inside (n : Nat) : Bool := 0 < n && c.contains ((n : Rat) * tenPow k)
  let upper := lower + 1
  let rest := scaled - lower
  match inside lower, inside upper with
  | false, false => none
  | true, false => some ⟨lower, k⟩
  | false, true => some ⟨upper, k⟩
  | true, true =>
    if rest < 1 / 2 then some ⟨lower, k⟩
    else if 1 / 2 < rest then some ⟨upper, k⟩
    else some ⟨if lower % 2 = 0 then lower else upper, k⟩

/-- The position of the leading digit: the least `k` with `q < 10^k`, for
`0 < q`, starting from `guess` and going at most `fuel` steps. -/
def leading (q : Rat) (guess : Int) : Nat → Int
  | 0 => guess
  | fuel + 1 =>
    if tenPow guess ≤ q then leading q (guess + 1) fuel
    else if q < tenPow (guess - 1) then leading q (guess - 1) fuel
    else guess

/-- The first of the grids with `count`, `count + 1`, … digits that has a hit. -/
def search (c : Cell) (top : Int) (count : Nat) : Nat → Option Decimal
  | 0 => none
  | fuel + 1 =>
    match onGrid c (top - count) with
    | some d => some d
    | none => search c top (count + 1) fuel

/-- The shortest decimal of `m * 2^e`, the nearest of those. -/
def choose (m : Nat) (e : Int) : Decimal :=
  let c := cell m e
  let guess : Int := ((Nat.log2 m : Int) + e) * 30103 / 100000
  let top := leading c.value guess 10
  (search c top 1 17).getD ⟨m, e⟩

/-- The same decimal with no zero at the end of its digits. -/
def Decimal.trim (d : Decimal) : Decimal :=
  let kept := dropZeros (Montage.digits d.digits)
  let zeros := (Montage.digits d.digits).length - kept.length
  ⟨d.digits / Nat.pow 10 zeros, d.exponent + zeros⟩

end Shortest

/-- How the digits of a number are laid out: positionally while the position of
the point is in `lowest .. highest` (counted from before the first digit), with
a point and a zero after a whole number, and otherwise as a first digit, the
rest after a point, and a signed exponent of at least `exponentDigits` digits. -/
structure Layout where
  lowest : Int
  highest : Int
  exponentDigits : Nat

/-- Numbers are written positionally from `0.0001` to below `10^16`. -/
def Layout.plain : Layout := ⟨-3, 16, 2⟩

/-- The text of digits `ds` whose point stands `point` places after the start. -/
def Layout.write (style : Layout) (ds : List Char) (point : Int) : List Char :=
  if style.lowest ≤ point ∧ point ≤ style.highest then
    if point ≤ 0 then '0' :: '.' :: (List.replicate (-point).toNat '0' ++ ds)
    else if ds.length ≤ point.toNat then
      ds ++ List.replicate (point.toNat - ds.length) '0' ++ ['.', '0']
    else ds.take point.toNat ++ '.' :: ds.drop point.toNat
  else
    let power := point - 1
    let mantissa := match ds with
      | d :: [] => [d]
      | d :: rest => d :: '.' :: rest
      | [] => []
    mantissa ++ 'e' :: (if power < 0 then '-' else '+') ::
      padZeros style.exponentDigits (digits power.natAbs)

/-- The shortest text of a double; `none` for infinities and missing values. -/
def Shortest.text? (x : Float) : Option String :=
  let bits := x.toBits.toNat
  if Binary64.biased bits = 2047 then none
  else
    let p := Binary64.parts bits
    let sign := if p.negative then ['-'] else []
    if p.significand = 0 then some (String.ofList (sign ++ ['0', '.', '0']))
    else
      let d := (Shortest.choose p.significand p.exponent).trim
      let ds := digits d.digits
      some (String.ofList (sign ++ Layout.plain.write ds (d.exponent + ds.length)))

/-- The text of a number in messages: the shortest one of the nearest double, or the
word for an infinity or a missing value. -/
def Scalar.text {α : Type} [Scalar α] (x : α) : String :=
  match Scalar.exact x with
  | .infinite negative => if negative then "-inf" else "inf"
  | .undefined => "nan"
  | .finite q =>
    let written := ((Binary64.nearest q).bind Shortest.text?).getD ""
    if x == 0.0 && decide (1.0 / x < 0.0) then "-" ++ written else written

end Montage
