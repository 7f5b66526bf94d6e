/-
What is done to a clip's picture: transitions at its two sides, and its look.

A transition belongs to one side of one clip. The length of a transition and the
amounts of a look are kept in range when they are read.
-/
import Montage.Timeline.Label

namespace Montage

/-- A side of a clip. -/
inductive Side where
  | start
  | finish
deriving BEq, ReflBEq, LawfulBEq, DecidableEq, Repr, Inhabited

instance : Listed Side where
  all := [.start, .finish]
  word
    | .start => "start"
    | .finish => "end"

def Side.word (s : Side) : String := Listed.word s

/-- How one picture gives way to the next. -/
inductive TransitionKind where
  | none
  | fade
  | dissolve
  | crossDissolve
  | slideLeft
  | slideRight
  | slideUp
  | slideDown
  | slideDiagonalTopLeft
  | slideDiagonalTopRight
  | wipeLeft
  | wipeRight
  | wipeUp
  | wipeDown
  | zoomIn
  | zoomOut
  | rotateIn
  | rotateOut
  | circleWipe
  | diamondWipe
deriving BEq, DecidableEq, Repr, Inhabited

instance : Listed TransitionKind where
  all := [.none, .fade, .dissolve, .crossDissolve, .slideLeft, .slideRight, .slideUp, .slideDown,
    .slideDiagonalTopLeft, .slideDiagonalTopRight, .wipeLeft, .wipeRight, .wipeUp, .wipeDown,
    .zoomIn, .zoomOut, .rotateIn, .rotateOut, .circleWipe, .diamondWipe]
  word
    | .none => "none"
    | .fade => "fade"
    | .dissolve => "dissolve"
    | .crossDissolve => "cross-dissolve"
    | .slideLeft => "slide-left"
    | .slideRight => "slide-right"
    | .slideUp => "slide-up"
    | .slideDown => "slide-down"
    | .slideDiagonalTopLeft => "slide-diagonal-tl"
    | .slideDiagonalTopRight => "slide-diagonal-tr"
    | .wipeLeft => "wipe-left"
    | .wipeRight => "wipe-right"
    | .wipeUp => "wipe-up"
    | .wipeDown => "wipe-down"
    | .zoomIn => "zoom-in"
    | .zoomOut => "zoom-out"
    | .rotateIn => "rotate-in"
    | .rotateOut => "rotate-out"
    | .circleWipe => "circle-wipe"
    | .diamondWipe => "diamond-wipe"

def TransitionKind.word (k : TransitionKind) : String := Listed.word k

structure Transition (α : Type) (ι : Type := String) where
  id : String
  clipId : ι
  kind : TransitionKind
  duration : α
  side : Side
deriving BEq, Repr

/-- The colours and sharpness of a clip's picture. -/
structure Look (α : Type) (ι : Type := String) where
  clipId : ι
  name : String
  brightness : α
  contrast : α
  saturation : α
  grayscale : Bool
  sepia : Bool
  blur : α
deriving BEq, Repr

variable {α : Type} [Scalar α]

/-- The least length of a transition. -/
def minTransitionDuration : α := 0.1

namespace Transition

variable {ι : Type} [Label ι α]

/-- The length of a transition, raised to the least one. -/
def length (j : Json α) : Report α :=
  (Read.number j).map fun v => Scalar.larger minTransitionDuration v

/-- A transition read from its fields. -/
def read (fs : Fields α) : Report (Transition α ι) :=
  Transition.mk <$> fs.require "id" Read.text
    <*> fs.require "clip_id" Label.read
    <*> fs.withDefault "type" .fade Read.choice
    <*> fs.withDefault "duration" 1.0 length
    <*> fs.withDefault "position" .start Read.choice

/-- The fields of a transition. -/
def fields (t : Transition α ι) : Fields α :=
  [("id", .text t.id), ("clip_id", Label.data t.clipId), ("type", .text t.kind.word),
    ("duration", .real t.duration), ("position", .text t.side.word)]

end Transition

namespace Look

variable {ι : Type}

/-- A percentage with a sign. -/
def signedPercent (j : Json α) : Report α :=
  (Read.number j).map fun v => Scalar.clamp v (-100.0) 100.0

/-- A look read from its fields. -/
def read [Label ι α] (fs : Fields α) : Report (Look α ι) :=
  Look.mk <$> fs.require "clip_id" Label.read
    <*> fs.withDefault "name" "custom" Read.text
    <*> fs.withDefault "brightness" 0.0 signedPercent
    <*> fs.withDefault "contrast" 0.0 signedPercent
    <*> fs.withDefault "saturation" 0.0 signedPercent
    <*> fs.withDefault "grayscale" false Read.boolean
    <*> fs.withDefault "sepia" false Read.boolean
    <*> fs.withDefault "blur" 0.0
      (fun j => (Read.number j).map fun v => Scalar.clamp v 0.0 20.0)

/-- The fields of a look. -/
def fields [Label ι α] (l : Look α ι) : Fields α :=
  [("clip_id", Label.data l.clipId), ("name", .text l.name), ("brightness", .real l.brightness),
    ("contrast", .real l.contrast), ("saturation", .real l.saturation),
    ("grayscale", .bool l.grayscale), ("sepia", .bool l.sepia), ("blur", .real l.blur)]

/-- Whether a look leaves the picture as it is. -/
def isNeutral (l : Look α ι) : Bool :=
  l.brightness == 0.0 && l.contrast == 0.0 && l.saturation == 0.0 && !l.grayscale &&
    !l.sepia && l.blur == 0.0

end Look

end Montage
