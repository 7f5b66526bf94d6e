/-
Doubles as exact numbers, and the double nearest to a rational.

A finite double is a sign and `m * 2^e` with `m < 2^53`; `exact` reads that from
its bits. `nearest` scales a rational so that its significand has 53 bits (fewer
below the least normal exponent), rounds that to even on ties, and packs it; a
rational whose rounding needs an exponent above the largest has no double.
-/
import Montage.Number.Exact

namespace Montage.Binary64

/-- `2^e` for any whole `e`. -/
def twoPow (e : Int) : Rat :=
  if 0 ≤ e then (Nat.pow 2 e.toNat : Rat) else 1 / (Nat.pow 2 (-e).toNat : Rat)

/-- How many fractions there are: `2^52`. -/
def fractions : Nat := 0x10000000000000

/-- How many exponent fields there are. The last one is that of infinities. -/
def exponentFields : Nat := 2048

/-- The bit of the sign: `2^63`. -/
def signBit : Nat := 0x8000000000000000

/-- The sign, significand and exponent of a finite double. -/
structure Parts where
  negative : Bool
  significand : Nat
  exponent : Int
deriving BEq, Repr, Inhabited

def fraction (bits : Nat) : Nat := bits % fractions

def biased (bits : Nat) : Nat := bits / fractions % exponentFields

def isNegative (bits : Nat) : Bool := bits / signBit % 2 == 1

/-- The parts of a word whose exponent field is not the one of infinities. -/
def parts (bits : Nat) : Parts :=
  if biased bits = 0 then ⟨isNegative bits, fraction bits, -1074⟩
  else ⟨isNegative bits, fractions + fraction bits, (biased bits : Int) - 1075⟩

/-- What a double stands for; both zeros stand for zero. -/
def exact (x : Float) : Exact :=
  let bits := x.toBits.toNat
  if biased bits = 2047 then
    if fraction bits = 0 then .infinite (isNegative bits) else .undefined
  else
    let p := parts bits
    let magnitude := (p.significand : Rat) * twoPow p.exponent
    .finite (if p.negative then -magnitude else magnitude)

/-- The exponent of the unit in the last place for a positive rational: that of
its leading bit less 52, and never below the least. -/
def unitExponent (q : Rat) : Int :=
  let guess : Int := (Nat.log2 q.num.natAbs : Int) - (Nat.log2 q.den : Int)
  let leading := if twoPow guess ≤ q then guess else guess - 1
  if leading - 52 < -1074 then -1074 else leading - 52

/-- The word of `m * 2^e` for a rounded significand `m ≤ 2^53`; `none` when it
exceeds the largest finite double. -/
def pack (significand : Nat) (exponent : Int) : Option Nat :=
  let carried := significand = 2 * fractions
  let m := if carried then fractions else significand
  let e := if carried then exponent + 1 else exponent
  if m < fractions then some m
  else
    let field := (e + 1075).toNat
    if 2047 ≤ field then none else some (field * fractions + (m - fractions))

/-- The double nearest to a rational, a tie to the even significand; `none` when
the rational lies beyond the largest finite double. -/
def nearest (q : Rat) : Option Float :=
  if q = 0 then some (Float.ofBits 0)
  else
    let magnitude := if q < 0 then -q else q
    let unit := unitExponent magnitude
    let significand := (halfEven (magnitude / twoPow unit)).toNat
    (pack significand unit).map fun word =>
      Float.ofBits (if q < 0 then signBit + word else word).toUInt64

/-- The infinity of a sign. -/
def infinity (negative : Bool) : Float :=
  Float.ofBits ((if negative then signBit else 0) + 2047 * fractions).toUInt64

def notANumber : Float := Float.ofBits (2047 * fractions + fractions / 2).toUInt64

end Montage.Binary64
