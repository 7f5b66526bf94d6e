/-
Texts written as bytes, and bytes read as text, whatever they are.

A text is written code point by code point, which fails where halves of pairs stand
alone. Of bytes that are read, one that starts no character, and a start that its
continuation does not follow, each give one replacement character; reading goes on at
the first byte that did not fit.
-/
import Montage.Text.Half

namespace Montage

/-- Halves that stand alone in a row, and how many code points stand before them. -/
structure Unwritable where
  place : Nat
  halves : List Nat
deriving BEq, DecidableEq, Repr, Inhabited

/-- Whether a half stands for a byte that belongs to no character. -/
def isByteHalf (n : Nat) : Bool := 0xdc80 ≤ n && n ≤ 0xdcff

namespace Unwritable

/-- The first halves that stand alone in a text, from one on that does not pass. -/
def find? (passes : Nat → Bool) (s : String) : Option Unwritable :=
  let ns := codes s
  let isBad (n : Nat) : Bool := isHalf n && !passes n
  if ns.any isBad then
    let rest := ns.dropWhile (!isBad ·)
    some ⟨ns.length - rest.length, rest.takeWhile isHalf⟩
  else none

/-- What is said of halves that cannot be written. -/
def message (u : Unwritable) : String :=
  let what := match u.halves with
    | [n] => "character '\\u" ++ String.ofList (Nat.toDigits 16 n) ++ "' in position " ++ toString u.place
    | halves => "characters in position " ++ toString u.place ++ "-" ++
      toString (u.place + halves.length - 1)
  "'utf-8' codec can't encode " ++ what ++ ": surrogates not allowed"

end Unwritable

namespace Utf8

/-- The bytes of a code point. -/
def encodeCode (n : Nat) : List Nat :=
  if n < 0x80 then [n]
  else if n < 0x800 then [0xc0 + n / 64, 0x80 + n % 64]
  else if n < 0x10000 then [0xe0 + n / 4096, 0x80 + n / 64 % 64, 0x80 + n % 64]
  else [0xf0 + n / 262144, 0x80 + n / 4096 % 64, 0x80 + n / 64 % 64, 0x80 + n % 64]

/-- The bytes of a text of characters alone. -/
def encode (s : String) : List Nat := (codes s).flatMap encodeCode

/-- What stands for bytes that are no character. -/
def replacement : Nat := 0xfffd

/-- How a character goes on after its first byte: the bits so far, the range of
the next byte, and how many bytes follow that one. -/
structure Lead where
  bits : Nat
  low : Nat
  high : Nat
  more : Nat

/-- How the character of a first byte goes on. -/
def lead? (b : Nat) : Option Lead :=
  if 0xc2 ≤ b ∧ b ≤ 0xdf then some ⟨b - 0xc0, 0x80, 0xbf, 0⟩
  else if b = 0xe0 then some ⟨0, 0xa0, 0xbf, 1⟩
  else if b = 0xed then some ⟨0xd, 0x80, 0x9f, 1⟩
  else if 0xe1 ≤ b ∧ b ≤ 0xef then some ⟨b - 0xe0, 0x80, 0xbf, 1⟩
  else if b = 0xf0 then some ⟨0, 0x90, 0xbf, 2⟩
  else if 0xf1 ≤ b ∧ b ≤ 0xf3 then some ⟨b - 0xf0, 0x80, 0xbf, 2⟩
  else if b = 0xf4 then some ⟨4, 0x80, 0x8f, 2⟩
  else none

/-- The code points of bytes, `pending` being the character that is not finished. -/
def decodeFrom (pending : Option Lead) : List Nat → List Nat
  | [] => if pending.isSome then [replacement] else []
  | b :: rest =>
    let fresh : List Nat :=
      if b < 0x80 then b :: decodeFrom none rest
      else match lead? b with
        | some l => decodeFrom (some l) rest
        | none => replacement :: decodeFrom none rest
    match pending with
    | none => fresh
    | some l =>
      if l.low ≤ b ∧ b ≤ l.high then
        let bits := l.bits * 64 + (b - 0x80)
        match l.more with
        | 0 => bits :: decodeFrom none rest
        | more + 1 => decodeFrom (some ⟨bits, 0x80, 0xbf, more⟩) rest
      else replacement :: fresh

/-- The text of bytes. -/
def decode (bytes : List Nat) : String := ofCodes (decodeFrom none bytes)

end Utf8

end Montage
