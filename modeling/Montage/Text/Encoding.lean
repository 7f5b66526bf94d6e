/-
The encodings that a body of text may come in.

A text in ASCII characters has no zero bytes in units of one byte, and has them in
fixed places in units of two or four, so the first bytes tell the encoding of a text
that starts with such characters.
-/
import Montage.Text.Utf8

namespace Montage

inductive Encoding where
  | utf8
  | utf16 (bigEndian : Bool)
  | utf32 (bigEndian : Bool)
deriving BEq, DecidableEq, Repr, Inhabited

namespace Encoding

/-- The encoding that the first bytes of a text tell. -/
def ofBytes : List Nat → Encoding
  | [0, _] => .utf16 true
  | [_, 0] => .utf16 false
  | 0 :: b :: _ :: _ :: _ => if b = 0 then .utf32 true else .utf16 true
  | _ :: 0 :: c :: d :: _ => if c = 0 ∧ d = 0 then .utf32 false else .utf16 false
  | _ => .utf8

/-- Bytes in groups of some size, each as one number; none if the last group is not
full. -/
def units? (bigEndian : Bool) (size : Nat) (bytes : List Nat) : Option (List Nat) :=
  let number (group : List Nat) : Nat :=
    (if bigEndian then group else group.reverse).foldl (fun n b => n * 256 + b) 0
  let count := bytes.length / size
  if bytes.length ≠ count * size then none
  else some ((List.range count).map fun i => number ((bytes.drop (i * size)).take size))

/-- The code points of units of two bytes; half of a pair may stand alone. -/
def ofUnits : List Nat → List Nat
  | high :: low :: rest =>
    if isHighHalf high && isLowHalf low then joinHalves high low :: ofUnits rest
    else high :: ofUnits (low :: rest)
  | units => units

/-- The text of bytes in units of more than one byte; none if they are no text. -/
def decode? (e : Encoding) (bytes : List Nat) : Option String :=
  match e with
  | .utf8 => none
  | .utf16 bigEndian => (units? bigEndian 2 bytes).map fun us => ofCodes (ofUnits us)
  | .utf32 bigEndian =>
    match units? bigEndian 4 bytes with
    | none => none
    | some us => if us.all (· < 0x110000) then some (ofCodes us) else none

end Encoding

/-- A text without a byte order mark. -/
def unmarked (s : String) : String :=
  match s.toList with
  | c :: rest => if c.toNat = 0xfeff then String.ofList rest else s
  | [] => s

/-- The text that the bytes of a text are, in the encoding that they tell; none if they
are no text. In single bytes a byte order mark does not count. -/
def recode? (s : String) : Option String :=
  let bytes := Utf8.encode s
  match Encoding.ofBytes bytes with
  | .utf8 => some (unmarked s)
  | e => e.decode? bytes

end Montage
