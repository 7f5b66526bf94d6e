/-
What an export looks like: frame size, frame rate, container and quality.

The short side of the frame is that of the chosen resolution and the long side
follows from the shape of the frame; both are even.
-/
import Montage.Timeline.Basic

namespace Montage

inductive Resolution where
  | hd
  | fullHd
  | ultraHd
deriving BEq, DecidableEq, Repr, Inhabited

instance : Listed Resolution where
  all := [.hd, .fullHd, .ultraHd]
  word
    | .hd => "720p"
    | .fullHd => "1080p"
    | .ultraHd => "4K"

/-- The short side of the frame. -/
def Resolution.shortSide : Resolution → Nat
  | .hd => 720
  | .fullHd => 1080
  | .ultraHd => 2160

/-- The shape of the frame as width to height. -/
def AspectRatio.sides : AspectRatio → Nat × Nat
  | .wide => (16, 9)
  | .tall => (9, 16)
  | .square => (1, 1)
  | .classic => (4, 3)
  | .ultrawide => (21, 9)

inductive Container where
  | mp4
  | webm
deriving BEq, DecidableEq, Repr, Inhabited

instance : Listed Container where
  all := [.mp4, .webm]
  word
    | .mp4 => "mp4"
    | .webm => "webm"

inductive Quality where
  | low
  | medium
  | high
deriving BEq, DecidableEq, Repr, Inhabited

instance : Listed Quality where
  all := [.low, .medium, .high]
  word
    | .low => "low"
    | .medium => "medium"
    | .high => "high"

/-- Frames a second. -/
inductive FrameRate where
  | thirty
  | sixty
  | oneTwenty
deriving BEq, DecidableEq, Repr, Inhabited

namespace FrameRate

def value : FrameRate → Nat
  | .thirty => 30
  | .sixty => 60
  | .oneTwenty => 120

def ofInt? (n : Int) : Option FrameRate :=
  [thirty, sixty, oneTwenty].find? fun r => (r.value : Int) == n

/-- A frame rate read from a number that is one of them. -/
def read {α : Type} [Scalar α] : Json α → Report FrameRate
  | .int n =>
    if !Read.fitsWord n then .fault .integerSize
    else match ofInt? n with
      | some r => .valid r
      | none => .fault .notListed
  | .real x =>
    match (Read.wholeOf x).toOption.bind ofInt? with
    | some r => .valid r
    | none => .fault .notListed
  | _ => .fault .notListed

end FrameRate

/-- The even whole number nearest to a number, and at least two. -/
def Exact.even : Exact → Except NoWhole Int
  | .finite q =>
    let half := halfEven (q / 2)
    .ok (if 2 < half * 2 then half * 2 else 2)
  | .infinite _ => .error .infinite
  | .undefined => .error .undefined

/-- The even whole number nearest to a rational, and at least two. -/
def evenSide (q : Rat) : Int := (Exact.finite q).even.toOption.getD 2

/-- The width and height of a frame. -/
def frameSize (r : Resolution) (ratio : AspectRatio) : Int × Int :=
  let short := r.shortSide
  let (w, h) := ratio.sides
  if h ≤ w then (evenSide (mkRat (short * w) h), short)
  else (short, evenSide (mkRat (short * h) w))

structure ExportSettings where
  resolution : Resolution
  aspectRatio : Option AspectRatio
  rate : FrameRate
  container : Container
  quality : Quality
  filename : String
deriving BEq, DecidableEq, Repr

namespace ExportSettings

def default : ExportSettings := ⟨.fullHd, none, .thirty, .mp4, .high, "export"⟩

instance : Inhabited ExportSettings := ⟨default⟩

/-- The width and height of the frame, in the given shape unless another is set. -/
def frame (s : ExportSettings) (ratio : AspectRatio) : Int × Int :=
  frameSize s.resolution (s.aspectRatio.getD ratio)

variable {α : Type} [Scalar α]

/-- Settings read from their fields. -/
def read (fs : Fields α) : Report ExportSettings :=
  ExportSettings.mk <$> fs.withDefault "resolution" .fullHd Read.choice
    <*> fs.withDefault "aspect_ratio" none (Read.optional Read.choice)
    <*> fs.withDefault "fps" .thirty FrameRate.read
    <*> fs.withDefault "format" .mp4 Read.choice
    <*> fs.withDefault "quality" .high Read.choice
    <*> fs.withDefault "filename" "export" Read.text

/-- The fields of settings. -/
def fields (s : ExportSettings) : Fields α :=
  [("resolution", .text (Listed.word s.resolution)),
    ("aspect_ratio", .optionalText (s.aspectRatio.map AspectRatio.word)),
    ("fps", .int s.rate.value), ("format", .text (Listed.word s.container)),
    ("quality", .text (Listed.word s.quality)), ("filename", .text s.filename)]

end ExportSettings

end Montage
