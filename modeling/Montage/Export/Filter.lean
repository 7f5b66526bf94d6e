/-
The filters of an export and how the engine writes them.

A `Filter` keeps the numbers it was made with; only its text rounds them.
-/
import Montage.Export.Graph
import Montage.Number.Places
import Montage.Text.Escape
import Montage.Timeline.Basic

namespace Montage

/-- A text drawn over the picture. -/
structure DrawText (α : Type) where
  font : String
  text : String
  size : Int
  color : String
  x : Int
  y : Int
  background : Option String
  start : α
  finish : α
deriving BEq, Repr

/-- One filter. -/
inductive Filter (α : Type) where
  | frameRate (fps : Int)
  | timeBase (fps : Int)
  | squarePixels
  | pixelFormat (name : String)
  | soundFormat
  | colorSource (color : String) (width height : Int) (duration : α) (fps : Int)
  | silence (duration : α)
  | holdFrame
  | cutLength (duration : α)
  | cutSpan (start duration : α)
  | resetTime
  | soundSpan (start duration : α)
  | soundLength (duration : α)
  | soundResetTime
  | soundPad
  | volume (gain : α)
  | crop (x y width height : α)
  | scaleToFit (width height : Int)
  | padTo (width height : Int)
  | equalize (brightness contrast saturation : α)
  | grayscale
  | sepia
  | blur (radius : α)
  | fadeIn (duration : α)
  | fadeOut (start duration : α)
  | spinIn (duration : α)
  | spinOut (start duration : α)
  | soundFadeIn (duration : α)
  | soundFadeOut (start duration : α)
  | crossFade (kind : TransitionKind) (duration offset : α)
  | soundCrossFade (duration : α)
  | concat (count : Nat) (stream : Stream)
  | drawText (drawn : DrawText α)
  | delay (milliseconds : Int)
  | mix (inputs : Nat)
  | pass (stream : Stream)
deriving BEq, Repr

/-- The engine's name for a transition between two pictures. -/
def TransitionKind.crossFadeName : TransitionKind → String
  | .none => "fade"
  | .fade => "fade"
  | .dissolve => "dissolve"
  | .crossDissolve => "dissolve"
  | .slideLeft => "slideleft"
  | .slideRight => "slideright"
  | .slideUp => "slideup"
  | .slideDown => "slidedown"
  | .slideDiagonalTopLeft => "diagtl"
  | .slideDiagonalTopRight => "diagtr"
  | .wipeLeft => "wipeleft"
  | .wipeRight => "wiperight"
  | .wipeUp => "wipeup"
  | .wipeDown => "wipedown"
  | .zoomIn => "zoomin"
  | .zoomOut => "fadefast"
  | .rotateIn => "radial"
  | .rotateOut => "radial"
  | .circleWipe => "circleopen"
  | .diamondWipe => "rectcrop"

/-- The engine's name for a transition called by its word; a fade for any other. -/
def crossFadeName (word : String) : String :=
  match (Listed.ofWord? word : Option TransitionKind) with
  | some kind => kind.crossFadeName
  | none => TransitionKind.fade.crossFadeName

/-- The engine's form of a colour. -/
def engineColor (color : String) : String :=
  "0x" ++ String.ofList (color.toList.dropWhile (· = '#'))

/-- Whether an optional text is there and not empty. -/
def nonempty? (s : Option String) : Option String := s.filter (!·.isEmpty)

variable {α : Type} [Scalar α]

namespace DrawText

/-- The parts of a text's filter. -/
def parts (d : DrawText α) : List String :=
  ["fontfile='" ++ d.font ++ "'", "text='" ++ escape d.text ++ "'",
    "fontsize=" ++ toString d.size, "fontcolor=" ++ engineColor d.color,
    "x=" ++ toString d.x ++ "-tw/2", "y=" ++ toString d.y ++ "-th/2"] ++
    (match nonempty? d.background with
      | some color => ["box=1", "boxcolor=" ++ engineColor color ++ "@0.5", "boxborderw=5"]
      | none => []) ++
    ["enable='gte(t," ++ compact d.start ++ ")*lt(t," ++ compact d.finish ++ ")'"]

end DrawText

namespace Filter

/-- A number of the equalizer, left out at zero. -/
def equalizerPart (name : String) (amount value : α) : List String :=
  if amount == 0.0 then [] else [name ++ "=" ++ compact value]

/-- A turn of the frame by an angle. -/
def spin (angle : String) : String := "rotate=a='" ++ angle ++ "':c=black@0:ow=iw:oh=ih"

/-- The filter of a frame rate that is written somehow. -/
def rateText (fps : String) : String := "fps=" ++ fps

/-- The filter of a time base of one frame. -/
def timeBaseText (fps : String) : String := "settb=1/" ++ fps

/-- The filter that scales a picture into a frame whose sides are written somehow. -/
def scaleText (width height : String) : String :=
  "scale=" ++ width ++ ":" ++ height ++ ":force_original_aspect_ratio=decrease"

/-- The filter that puts a picture into the middle of a frame. -/
def padText (width height : String) : String :=
  "pad=" ++ width ++ ":" ++ height ++ ":(ow-iw)/2:(oh-ih)/2:color=black"

/-- The filters that bring a picture to a rate that is written somehow. -/
def normalTexts (fps : String) : List String :=
  [rateText fps, timeBaseText fps, "setsar=1", "format=yuv420p"]

/-- The filters that fit a picture into a frame whose sides are written somehow. -/
def fitTexts (width height : String) : List String := [scaleText width height, padText width height]

/-- The filter that makes a picture of one colour for some time. -/
def colorText (color width height fps : String) (duration : α) : String :=
  "color=c=" ++ color ++ ":s=" ++ width ++ "x" ++ height ++ ":d=" ++ compact duration ++
    ":r=" ++ fps

/-- Whether a concatenation joins pictures or sounds. -/
def streams : Stream → String
  | .video => "v=1:a=0"
  | .audio => "v=0:a=1"

/-- A filter in the engine's language. -/
def text : Filter α → String
  | .frameRate fps => rateText (toString fps)
  | .timeBase fps => timeBaseText (toString fps)
  | .squarePixels => "setsar=1"
  | .pixelFormat name => "format=" ++ name
  | .soundFormat => "aformat=sample_rates=48000:channel_layouts=stereo"
  | .colorSource color w h d fps => colorText color (toString w) (toString h) (toString fps) d
  | .silence d => "aevalsrc=0:c=stereo:s=48000:d=" ++ compact d
  | .holdFrame => "loop=loop=-1:size=1:start=0"
  | .cutLength d => "trim=duration=" ++ compact d
  | .cutSpan start d => "trim=start=" ++ compact start ++ ":duration=" ++ compact d
  | .resetTime => "setpts=PTS-STARTPTS"
  | .soundSpan start d => "atrim=start=" ++ compact start ++ ":duration=" ++ compact d
  | .soundLength d => "atrim=duration=" ++ compact d
  | .soundResetTime => "asetpts=PTS-STARTPTS"
  | .soundPad => "apad"
  | .volume gain => "volume=" ++ compact gain
  | .crop x y w h =>
    "crop=iw*" ++ compact (w / 100.0) ++ ":ih*" ++ compact (h / 100.0) ++
      ":iw*" ++ compact (x / 100.0) ++ ":ih*" ++ compact (y / 100.0)
  | .scaleToFit w h => scaleText (toString w) (toString h)
  | .padTo w h => padText (toString w) (toString h)
  | .equalize b c s =>
    "eq=" ++ ":".intercalate (equalizerPart "brightness" b (b / 100.0) ++
      equalizerPart "contrast" c (1.0 + c / 100.0) ++
      equalizerPart "saturation" s (1.0 + s / 100.0))
  | .grayscale => "hue=s=0"
  | .sepia => "colorchannelmixer=.393:.769:.189:0:.349:.686:.168:0:.272:.534:.131"
  | .blur radius => "boxblur=" ++ compact radius ++ ":1"
  | .fadeIn d => "fade=t=in:st=0:d=" ++ compact d
  | .fadeOut start d => "fade=t=out:st=" ++ compact start ++ ":d=" ++ compact d
  | .spinIn d => spin ("if(lt(t," ++ compact d ++ "),PI*(1-t/" ++ compact d ++ "),0)")
  | .spinOut start d =>
    spin ("if(gt(t," ++ compact start ++ "),PI*(t-" ++ compact start ++ ")/" ++ compact d ++
      ",0)")
  | .soundFadeIn d => "afade=t=in:st=0:d=" ++ compact d
  | .soundFadeOut start d => "afade=t=out:st=" ++ compact start ++ ":d=" ++ compact d
  | .crossFade kind d offset =>
    "xfade=transition=" ++ kind.crossFadeName ++ ":duration=" ++ compact d ++ ":offset=" ++
      compact offset
  | .soundCrossFade d => "acrossfade=d=" ++ compact d ++ ":c1=tri:c2=tri"
  | .concat count stream => "concat=n=" ++ toString count ++ ":" ++ streams stream
  | .drawText d => "drawtext=" ++ ":".intercalate d.parts
  | .delay ms => "adelay=delays=" ++ toString ms ++ ":all=1"
  | .mix inputs =>
    "amix=inputs=" ++ toString inputs ++ ":duration=first:dropout_transition=0:normalize=0"
  | .pass .video => "null"
  | .pass .audio => "anull"

end Filter

/-- The filters that bring every picture to one rate, time base and format. -/
def normalVideo (fps : Int) : List (Filter α) :=
  [.frameRate fps, .timeBase fps, .squarePixels, .pixelFormat "yuv420p"]

theorem map_text_normalVideo (fps : Int) :
    (normalVideo fps : List (Filter α)).map Filter.text = Filter.normalTexts (toString fps) := rfl

/-- The filter that brings every sound to one format. -/
def normalAudio : List (Filter α) := [.soundFormat]

/-- The filters that fit a picture into the frame. -/
def fitFrame (width height : Int) : List (Filter α) := [.scaleToFit width height, .padTo width height]

theorem map_text_fitFrame (width height : Int) :
    (fitFrame width height : List (Filter α)).map Filter.text =
      Filter.fitTexts (toString width) (toString height) := rfl

/-- The filters of a look. -/
def Look.filters {ι : Type} (l : Look α ι) : List (Filter α) :=
  (if l.brightness == 0.0 && l.contrast == 0.0 && l.saturation == 0.0 then []
    else [.equalize l.brightness l.contrast l.saturation]) ++
    (if l.grayscale then [.grayscale] else []) ++
    (if l.sepia then [.sepia] else []) ++
    (if 0.0 < l.blur then [.blur l.blur] else [])

/-- A fade of one clip takes no more than this share of it. -/
def maxFadeShare : α := 0.5

namespace Transition

variable {ι : Type}

/-- How long a clip of some length fades alone. -/
def fadeDuration (x : Transition α ι) (clipDuration : α) : α :=
  Scalar.larger minTransitionDuration (Scalar.smaller x.duration (clipDuration * maxFadeShare))

/-- When a clip of some length starts to fade out alone. -/
def fadeStart (x : Transition α ι) (clipDuration : α) : α :=
  Scalar.larger 0.0 (clipDuration - x.fadeDuration clipDuration)

/-- Whether the frame turns while it fades. -/
def spins (x : Transition α ι) : Bool := x.kind == .rotateIn || x.kind == .rotateOut

/-- The filters that fade one clip's picture in or out. -/
def fadeFilters (x : Transition α ι) (clipDuration : α) : List (Filter α) :=
  if x.kind = .none then []
  else
    let d := x.fadeDuration clipDuration
    let start := x.fadeStart clipDuration
    let (spin, fade) : Filter α × Filter α := match x.side with
      | .start => (.spinIn d, .fadeIn d)
      | .finish => (.spinOut start d, .fadeOut start d)
    if x.spins then [.pixelFormat "yuva444p", spin, .pixelFormat "yuv420p", fade] else [fade]

/-- The filters that fade one clip's sound in or out. -/
def soundFadeFilters (x : Transition α ι) (clipDuration : α) : List (Filter α) :=
  if x.kind = .none then []
  else
    let d := x.fadeDuration clipDuration
    match x.side with
    | .start => [.soundFadeIn d]
    | .finish => [.soundFadeOut (x.fadeStart clipDuration) d]

end Transition

/-- Why a text cannot be drawn, or a sound delayed: a number is too large, or is
no number. -/
inductive Unmeasurable where
  | tooLarge
  | undefined
deriving BEq, DecidableEq, Repr, Inhabited

/-- The nearest whole number, a half to the even neighbour. -/
def measure (x : α) : Except Unmeasurable Int :=
  match (Scalar.exact x).whole with
  | .ok n => .ok n
  | .error .infinite => .error .tooLarge
  | .error .undefined => .error .undefined

/-- A side of a frame, as it is given. -/
inductive Extent (α : Type) where
  | whole (pixels : Int)
  | real (pixels : α)
deriving BEq, Repr

/-- The length of a side; none if it is too large. -/
def Extent.length? : Extent α → Option α
  | .whole n => Scalar.nearest (n : Rat)
  | .real x => some x

/-- The side that a value is; a boolean is zero or one. -/
def Json.extent? : Json α → Option (Extent α)
  | .int n => some (.whole n)
  | .bool b => some (.whole (if b then 1 else 0))
  | .real x => some (.real x)
  | _ => none

namespace Overlay

/-- Font sizes are meant for a frame of this width. -/
def referenceWidth : Nat := 600

/-- The size of the letters in a frame of some width, not yet a whole one. -/
def exactSize? (o : Overlay α) : Extent α → Option α
  | .whole width => Scalar.nearest (mkRat (o.fontSize * width) referenceWidth)
  | .real width => (Scalar.nearest (o.fontSize : Rat)).map fun size => size * width / 600.0

/-- The size of the letters in a frame of some width. -/
def pixelSize (o : Overlay α) (width : Extent α) : Except Unmeasurable Int :=
  match o.exactSize? width with
  | none => .error .tooLarge
  | some size => (measure size).map fun n => if 1 < n then n else 1

/-- The pixel at a percentage of a side of the frame. -/
def pixelAt (percentage : α) (side : Extent α) : Except Unmeasurable Int :=
  match side.length? with
  | none => .error .tooLarge
  | some length => measure (percentage / 100.0 * length)

/-- An overlay drawn in a frame for a span of time. -/
def drawn (o : Overlay α) (width height : Extent α) (start finish : α) (font : String) :
    Except Unmeasurable (Filter α) := do
  let size ← o.pixelSize width
  let x ← pixelAt o.x width
  let y ← pixelAt o.y height
  return .drawText ⟨font, o.text, size, o.color, x, y, o.background, start, finish⟩

/-- An overlay drawn in a frame whose sides are any values; an error without a cause is a
side that is no number, and the height counts only once the letters have a size. -/
def drawnOver (o : Overlay α) (width height : Json α) (start finish : α) (font : String) :
    Except (Option Unmeasurable) (Filter α) := do
  let some width := width.extent? | throw none
  let _ ← (o.pixelSize width).mapError some
  let some height := height.extent? | throw none
  (o.drawn width height start finish font).mapError some

end Overlay

end Montage
