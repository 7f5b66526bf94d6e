/-
Gaps: the empty spans between things laid out in order of their starts.

A gap is measured from the latest end so far, since things of different tracks
may overlap; spans no longer than the tolerance do not count.
-/
import Montage.Placement

namespace Montage

/-- An empty span in front of the thing with an index. -/
structure Gap (α : Type) where
  before : Nat
  duration : α
deriving BEq, Repr

/-- The gap in front of the thing whose index a value counts; none if it counts nothing. -/
def Gap.ofData? {α : Type} [Scalar α] (before : Json α) (duration : α) : Option (Gap α) :=
  match before.quantity? with
  | some (.finite q) => if q.den = 1 ∧ 0 ≤ q then some ⟨q.num.toNat, duration⟩ else none
  | _ => none

variable {α ι : Type} [Scalar α] {β : Type} [Timed β α ι]

/-- Spans up to this length are no gaps. -/
def gapTolerance : α := 0.01

/-- The gaps in front of things, the first of which has an index; `reached` is the
latest end before them. -/
def gapsFrom (index : Nat) (reached : α) : List β → List (Gap α)
  | [] => []
  | item :: rest =>
    let later := gapsFrom (index + 1)
      (Scalar.larger reached (Timed.start item + Timed.length item)) rest
    if reached + gapTolerance < Timed.start item then
      ⟨index, Timed.start item - reached⟩ :: later
    else later

/-- The gaps of things in order of their starts. -/
def detectGaps (items : List β) : List (Gap α) := gapsFrom 0 0.0 items

end Montage
