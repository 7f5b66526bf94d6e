/-
The target of a request: a path of names, and the settings of a query.

A percent sign with two hexadecimal digits stands for a byte; the bytes are read
as text. In a query a plus sign stands for a space, settings are separated by
ampersands, and of two settings with one name the last counts.
-/
import Montage.Text.Digit
import Montage.Text.Utf8

namespace Montage

/-- A byte that is no escape, as the digit it may be. -/
def hexByte? (b : Nat) : Option Nat := hexDigit? (Char.ofNat b)

/-- Bytes with their escapes resolved. -/
def unescapeBytes : List Nat → List Nat
  | [] => []
  | b :: high :: low :: rest =>
    if b = '%'.toNat then
      match hexByte? high, hexByte? low with
      | some h, some l => (h * 16 + l) :: unescapeBytes rest
      | _, _ => b :: unescapeBytes (high :: low :: rest)
    else b :: unescapeBytes (high :: low :: rest)
  | b :: rest => b :: unescapeBytes rest

/-- A text with its escapes resolved. -/
def unescape (s : String) : String :=
  Utf8.decode (unescapeBytes (Utf8.encode s))

/-- The path and the query of a request. -/
structure Target where
  path : List String
  query : List (String × String)
deriving BEq, DecidableEq, Repr, Inhabited

namespace Target

/-- The characters before the first one of a kind, and those after it. -/
def cut (c : Char) (s : String) : String × String :=
  (String.ofList (s.toList.takeWhile (· ≠ c)),
    String.ofList ((s.toList.dropWhile (· ≠ c)).drop 1))

/-- A text of a query. -/
def queryText (s : String) : String :=
  unescape (String.ofList (s.toList.map fun c => if c = '+' then ' ' else c))

/-- The settings of a query. -/
def readQuery (s : String) : List (String × String) :=
  ((s.splitOn "&").filter (!·.isEmpty)).map fun setting =>
    let (name, value) := cut '=' setting
    (queryText name, queryText value)

/-- The names of a path, each after a slash; a path that starts without one has none. -/
def names (path : String) : List String :=
  match path.splitOn "/" with
  | "" :: names => names
  | _ => []

/-- The target that a text names; none if it cannot be written in bytes. -/
def ofText? (s : String) : Option Target :=
  if isWritable s then
    let (path, query) := cut '?' s
    some ⟨names (unescape path), readQuery query⟩
  else none

/-- The last setting of a name. -/
def setting? (t : Target) (name : String) : Option String :=
  (t.query.reverse.find? (·.1 == name)).map (·.2)

end Target

end Montage
