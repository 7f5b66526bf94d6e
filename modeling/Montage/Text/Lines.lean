/-
The lines of a text, and its last ones.

A line ends at a line feed, a carriage return, the two together, a vertical or
page feed, a separator of files, groups or records, a next-line control, or a
line or paragraph separator. No line follows an end that ends the text.
-/
namespace Montage

/-- Whether a character ends a line. -/
def endsLine (c : Char) : Bool :=
  let n := c.toNat
  (0xa ≤ n && n ≤ 0xd) || (0x1c ≤ n && n ≤ 0x1e) || n == 0x85 || n == 0x2028 || n == 0x2029

/-- The lines of a text, `line` holding the reversed start of the first one. -/
def linesFrom (line : List Char) : List Char → List (List Char)
  | [] => if line.isEmpty then [] else [line.reverse]
  | '\r' :: '\n' :: rest => line.reverse :: linesFrom [] rest
  | c :: rest =>
    if endsLine c then line.reverse :: linesFrom [] rest
    else linesFrom (c :: line) rest

/-- The lines of a text. -/
def lines (s : String) : List String := (linesFrom [] s.toList).map String.ofList

/-- The last `count` lines of a text, joined by line feeds. -/
def lastLines (count : Nat) (s : String) : String :=
  let all := lines s
  "\n".intercalate (all.drop (all.length - count))

end Montage
