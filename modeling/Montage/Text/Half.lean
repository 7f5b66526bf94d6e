/-
Halves of pairs that stand alone.

A character beyond the first plane is written by a pair of sixteen-bit units. Half
of such a pair is no character, yet a text that is read from units may hold one. It
is kept as two characters: a mark, and the character that ends in the same sixteen
bits in another plane. The mark itself is kept twice, so that texts of different code
points are kept as different characters. `codes` gives the code points of a text that
is kept so, and `ofCodes` the text of code points.
-/
namespace Montage

/-- Whether a unit is the first half of a pair. -/
def isHighHalf (n : Nat) : Bool := 0xd800 ≤ n && n ≤ 0xdbff

/-- Whether a unit is the second half of a pair. -/
def isLowHalf (n : Nat) : Bool := 0xdc00 ≤ n && n ≤ 0xdfff

/-- Whether a code point is that of half a pair. -/
def isHalf (n : Nat) : Bool := isHighHalf n || isLowHalf n

/-- The code point of a pair. -/
def joinHalves (high low : Nat) : Nat := 0x10000 + (high - 0xd800) * 0x400 + (low - 0xdc00)

/-- What a half that stands alone is marked by: the last code point, which is that of no
character in use. -/
def halfMark : Char := Char.ofNat 0x10ffff

/-- The plane of the characters that stand for halves behind a mark. -/
def halfPlane : Nat := 0xa0000

/-- The characters that a code point is kept as. -/
def keep (n : Nat) : List Char :=
  if isHalf n then [halfMark, Char.ofNat (halfPlane + n)]
  else if Char.ofNat n = halfMark then [halfMark, halfMark]
  else [Char.ofNat n]

/-- The code points of the characters of a text. -/
def codesOf : List Char → List Nat
  | [] => []
  | [c] => [c.toNat]
  | c :: d :: rest =>
    if c = halfMark then (if d = halfMark then d.toNat else d.toNat - halfPlane) :: codesOf rest
    else c.toNat :: codesOf (d :: rest)

/-- The code points of a text. -/
def codes (s : String) : List Nat := codesOf s.toList

/-- The text of code points. -/
def ofCodes (ns : List Nat) : String := String.ofList (ns.flatMap keep)

/-- A text of characters alone as it is kept. -/
def keepText (s : String) : String := ofCodes (s.toList.map Char.toNat)

/-- Whether a text can be written in bytes: no half stands alone in it. -/
def isWritable (s : String) : Bool := !(codes s).any isHalf

/-- Whether a text stands before another one or is the same, by their code points. -/
def textLe (s t : String) : Bool := !decide (codes t < codes s)

end Montage
