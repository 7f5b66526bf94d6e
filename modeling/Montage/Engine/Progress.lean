/-
The engine's reports of how far it is.

A line that gives the time written so far, in millionths of a second, is a
fraction of the whole; any other line says nothing.
-/
import Montage.Number.Numeral

namespace Montage

/-- A time too large to calculate with. -/
inductive TimeTooLarge where
  | mk
deriving BEq, DecidableEq, Repr, Inhabited

/-- The text before the first equals sign, and the text after it. -/
def splitSetting (s : List Char) : List Char × List Char :=
  (s.takeWhile (· ≠ '='), (s.dropWhile (· ≠ '=')).drop 1)

/-- The names under which the engine reports the time written so far. -/
def timeKeys : List String := ["out_time_us", "out_time_ms"]

/-- The fraction of `total` seconds that a line reports. -/
def progress? {α : Type} [Scalar α] (line : String) (total : α) :
    Except TimeTooLarge (Option α) :=
  let (key, value) := splitSetting (strip line.toList)
  if !timeKeys.contains (String.ofList key) || decide (total ≤ 0.0) then .ok none
  else
    match readWhole? value with
    | none => .ok none
    | some n =>
      match (Scalar.nearest (mkRat n 1000000) : Option α) with
      | none => .error .mk
      | some seconds => .ok (some (Scalar.clamp (seconds / total) 0.0 1.0))

end Montage
