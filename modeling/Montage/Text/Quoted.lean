/-
Texts in quotes, as they are named in messages.

Single quotes are used unless the text holds one and no double quote. The quote
in use and the backslash are escaped by a backslash, and a character without a
visible form is written by the hexadecimal digits of its code point.
-/
import Montage.Text.Half
import Montage.Text.Unprintable

namespace Montage.Quoted

/-- The hexadecimal digits of a number, at least `width` of them. -/
def hex (width n : Nat) : List Char :=
  let ds := Nat.toDigits 16 n
  List.replicate (width - ds.length) '0' ++ ds

/-- A code point between quotes. -/
def code (quote : Char) (n : Nat) : List Char :=
  let c := Char.ofNat n
  if isHalf n then '\\' :: 'u' :: hex 4 n
  else if c = quote ∨ c = '\\' then ['\\', c]
  else if c = '\n' then ['\\', 'n']
  else if c = '\r' then ['\\', 'r']
  else if c = '\t' then ['\\', 't']
  else if isUnprintable n then
    if n < 0x100 then '\\' :: 'x' :: hex 2 n
    else if n < 0x10000 then '\\' :: 'u' :: hex 4 n
    else '\\' :: 'U' :: hex 8 n
  else [c]

/-- The quote a text is put in. -/
def quoteFor (s : List Char) : Char := if s.contains '\'' && !s.contains '"' then '"' else '\''

/-- A text in quotes. -/
def text (s : String) : String :=
  let quote := quoteFor s.toList
  String.ofList (quote :: (codes s).flatMap (code quote) ++ [quote])

/-- Texts in quotes, in brackets. -/
def list (ss : List String) : String := "[" ++ ", ".intercalate (ss.map text) ++ "]"

end Montage.Quoted
