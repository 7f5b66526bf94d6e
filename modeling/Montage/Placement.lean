/-
Where things stand on one track: overlaps, collisions, free places and snapping.

A `Timed` thing has an id, a start and a length, and can be moved; clips and
overlays are the two kinds. `resolve` pushes things to the right until none
starts before the end of its predecessor, less a tolerance.
-/
import Montage.Timeline.Basic

namespace Montage

/-- Things with a place on a track. -/
class Timed (β : Type) (α : outParam Type) (ι : outParam Type) where
  id : β → ι
  start : β → α
  length : β → α
  /-- The same thing at another start. -/
  startingAt : β → α → β

variable {α ι : Type} [Scalar α]

instance : Timed (Clip α ι) α ι where
  id c := c.id
  start c := c.start
  length c := c.visibleDuration
  startingAt c s := { c with start := s }

instance : Timed (Overlay α) α String where
  id o := o.id
  start o := o.start
  length o := o.duration
  startingAt o s := { o with start := s }

/-- Things may overlap by this much without being moved. -/
def overlapTolerance : α := 0.001

/-- A thing snaps to an edge that is nearer than this. -/
def snapThreshold : α := 0.2

variable {β : Type} [Timed β α ι]

/-- The things in order of their starts, those of one start in their given order. -/
def sortByStart (items : List β) : List β :=
  items.mergeSort fun a b => !decide (Timed.start b < Timed.start a)

/-- Things in order, each pushed to the end of the one before if it starts too
early; `previous` is the end of the thing before them. -/
def pushRight (previous : α) : List β → List β
  | [] => []
  | item :: rest =>
    if Timed.start item < previous - overlapTolerance then
      Timed.startingAt item previous :: pushRight (previous + Timed.length item) rest
    else item :: pushRight (Timed.start item + Timed.length item) rest

/-- The things in order of their starts, pushed apart from left to right. -/
def resolve (items : List β) : List β := pushRight 0.0 (sortByStart items)

/-- Whether things stay in their order and where they are when pushed apart. -/
def isSettled [BEq ι] (items : List β) : Bool :=
  let places (bs : List β) : List (ι × α) := bs.map fun b => (Timed.id b, Timed.start b)
  places (resolve items) == places items

/-- Whether a pair is before another: by their first parts, then their second ones. -/
def spanLt (a b : α × α) : Bool := a.1 < b.1 || (a.1 == b.1 && a.2 < b.2)

/-- The starts and ends of the things other than `except`, in order. -/
def spans [BEq ι] (items : List β) (except : Option ι) : List (α × α) :=
  ((items.filter fun item => some (Timed.id item) != except).map fun item =>
    (Timed.start item, Timed.start item + Timed.length item)).mergeSort fun a b => !spanLt b a

/-- Whether a span from `start` of some length meets a thing other than `except`. -/
def collides [BEq ι] (items : List β) (start length : α) (except : Option ι) : Bool :=
  let finish := start + length
  (spans items except).any fun s => decide (start < s.2) && decide (s.1 < finish)

/-- The starts of the free places between spans that are long enough, `free`
being where the first free place starts. -/
def gapStarts (length free : α) : List (α × α) → List α
  | [] => []
  | s :: rest =>
    let later := gapStarts length (Scalar.larger free s.2) rest
    if length ≤ s.1 - free then free :: later else later

/-- The first of some points that is nearest to a time, `best` being the nearest
so far and `least` its distance. -/
def nearestFrom (time best least : α) : List α → α
  | [] => best
  | p :: rest =>
    let d := Scalar.distance p time
    if d < least then nearestFrom time p d rest else nearestFrom time best least rest

/-- The first of some points that is nearest to a time. -/
def nearest (time : α) : List α → Option α
  | [] => none
  | p :: rest => some (nearestFrom time p (Scalar.distance p time) rest)

/-- A start near `time` at which a span of some length meets no thing other than
`except`: `time` itself, or the nearest among the starts of the free places and
the end of the last thing, the earliest of equally near ones. -/
def freePosition [BEq ι] (items : List β) (time length : α) (except : Option ι) : α :=
  if !collides items time length except then Scalar.larger 0.0 time
  else
    let taken := spans items except
    let last := Scalar.greatest (taken.map (·.2))
    let candidates := gapStarts length 0.0 taken ++ [last]
    Scalar.larger 0.0 ((nearest time candidates).getD last)

/-- Zero and the edges of the things other than `except`, in order, each once. -/
def snapPoints [BEq ι] (items : List β) (except : Option ι) : List α :=
  let edges := (spans items except).flatMap fun s => [s.1, s.2]
  (Scalar.distinct ((0.0 : α) :: edges)).mergeSort fun a b => !decide (b < a)

/-- The state of a search for an edge to snap to. -/
structure Snap (α : Type) where
  position : α
  distance : α

/-- A search that meets a point at some distance and would move to `target`. -/
def Snap.offer (s : Snap α) (d target : α) : Snap α := if d < s.distance then ⟨target, d⟩ else s

/-- The time a thing dragged to `time` snaps to: the nearest edge to its start,
or an edge that its end is nearer to. -/
def snap [BEq ι] (items : List β) (time length : α) (except : Option ι) (threshold : α) : α :=
  let points := snapPoints items except
  let byStart := points.foldl (fun s p => s.offer (Scalar.distance time p) p)
    (⟨time, threshold⟩ : Snap α)
  let finish := time + length
  let both := points.foldl (fun s p => s.offer (Scalar.distance finish p) (p - length)) byStart
  Scalar.larger 0.0 both.position

end Montage
