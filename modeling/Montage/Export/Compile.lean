/-
Timelines compiled into filter graphs.

The lane is the clips of all visual tracks in order of their starts. Each clip
and gap becomes a picture node and a sound node, the clips of a run are joined
in order, and the runs and gaps are put one after another. Overlays are drawn
over the whole, and the clips of unmuted audio tracks are mixed into its sound.
All media are looked up before the first node is made.
-/
import Montage.Export.Filter
import Montage.Export.Settings
import Montage.Layout.Grouping

namespace Montage

/-- Why a timeline cannot be compiled. -/
inductive CompileError (α : Type) (ι : Type := String) where
  /-- The media of a clip is not in the library. -/
  | missingMedia (clip : Clip α ι)
  | empty
  /-- A clip is called by what can be no key. -/
  | noKey
  /-- A clip names a track that is not there. -/
  | strayTrack (trackId : String)
  | unmeasurable (cause : Unmeasurable)
deriving BEq, Repr

namespace CompileError

variable {α ι : Type}

/-- What an error says. -/
def message [Scalar α] [Label ι α] : CompileError α ι → String
  | .missingMedia clip =>
    "clip " ++ Label.shown α clip.id ++ " references missing media " ++ clip.mediaId
  | .empty => "timeline has no video or image clips to export"
  | .noKey => ""
  | .strayTrack trackId => trackId
  | .unmeasurable .tooLarge => "integer division result too large for a float"
  | .unmeasurable .undefined => "cannot convert float NaN to integer"

/-- The code of an error about the timeline as it stands. -/
def code? : CompileError α ι → Option String
  | .missingMedia _ => some "video_render.missing_media"
  | .empty => some "video_render.empty_timeline"
  | _ => none

/-- The clip and the media that an error is about. -/
def details [Label ι α] : CompileError α ι → Fields α
  | .missingMedia clip => [("clip_id", Label.data clip.id), ("media_id", .text clip.mediaId)]
  | _ => []

end CompileError

/-- A file handed to the engine, for one clip. -/
structure Input (ι : Type := String) where
  uri : String
  kind : MediaKind
  clipId : ι
deriving BEq, DecidableEq, Repr, Inhabited

/-- The picture and the sound of a part of the export, as nodes. -/
structure Strand where
  video : Int
  audio : Int
deriving BEq, DecidableEq, Repr, Inhabited

/-- A gap or a run in the graph. -/
structure Segment (α : Type) (ι : Type := String) where
  kind : PieceKind
  strand : Strand
  duration : α
  clipIds : List ι
deriving BEq, Repr

/-- A compiled timeline. -/
structure Compiled (α : Type) (ι : Type := String) where
  graph : Graph (Filter α)
  inputs : List (Input ι)
  segments : List (Segment α ι)
  width : Int
  height : Int
  rate : FrameRate
  duration : α
  warnings : List String
  output : Strand
deriving BEq, Repr

variable {α ι : Type} [Scalar α]

namespace Timeline

/-- The index of a track, the last of those with its id. -/
def trackIndex? (t : Timeline α ι) (trackId : String) : Option Nat :=
  lastIndex? (t.tracks.map (·.id)) trackId

/-- The track with an id, the last of those. -/
def lastTrack? (t : Timeline α ι) (trackId : String) : Option (Track α ι) :=
  t.tracks.reverse.find? (·.id == trackId)

/-- The order of clips by their starts, and then by their tracks. -/
def laneLe (t : Timeline α ι) (a b : Clip α ι) : Bool :=
  a.start < b.start ||
    (a.start == b.start && (t.trackIndex? a.trackId).getD 0 ≤ (t.trackIndex? b.trackId).getD 0)

/-- The clips of the visual tracks, in order. -/
def lane (t : Timeline α ι) : Except (CompileError α ι) (List (Clip α ι)) :=
  let clips := (t.tracks.filter Track.isVisual).flatMap (·.clips)
  match clips.find? fun c => (t.trackIndex? c.trackId).isNone with
  | some c => .error (.strayTrack c.trackId)
  | none => .ok (clips.mergeSort t.laneLe)

/-- The ids by which clips of the lane are looked up: their own, and those of transitions
that have an effect. -/
def laneKeys (lane : List (Clip α ι)) (transitions : List (Transition α ι)) : List ι :=
  lane.map (·.id) ++ (transitions.filter (·.kind != .none)).map (·.clipId)

/-- The clips of the audio tracks that are heard, in order. -/
def heardClips (t : Timeline α ι) : List (Clip α ι) :=
  sortByStart ((t.tracks.filter fun x => x.kind == .audio && !x.muted).flatMap (·.clips))

end Timeline

/-- The first clip whose media is not in the library. -/
def firstMissing? (library : Library α) (clips : List (Clip α ι)) : Option (Clip α ι) :=
  clips.find? fun c => !library.has c.mediaId

/-- What to warn of: clips that start before the end of what comes before them. -/
def overlapWarnings [Label ι α] (reached : α) : List (Clip α ι) → List String
  | [] => []
  | c :: rest =>
    let later := overlapWarnings (Scalar.larger reached c.finish) rest
    if c.start < reached - overlapTolerance then
      ("clip " ++ Label.shown α c.id ++ " overlaps a clip on another track; laid out sequentially") :: later
    else later

/-- What the nodes of a graph are made from. -/
structure Scene (α : Type) (ι : Type := String) where
  timeline : Timeline α ι
  library : Library α
  width : Int
  height : Int
  fps : Int

/-- A graph under construction. -/
abbrev Draft (α : Type) := Graph (Filter α)

namespace Draft

/-- The graph with a node, and its index. -/
def add (g : Draft α) (op : String) (stream : Stream) (inputs : List Ref)
    (filters : List (Filter α)) : Draft α × Int :=
  (Graph.push g ⟨op, stream, inputs, filters⟩, (Graph.size g : Nat))

/-- The graph with a picture node of the common format. -/
def addVideo (g : Draft α) (fps : Int) (op : String) (inputs : List Ref)
    (filters : List (Filter α)) : Draft α × Int :=
  g.add op .video inputs (filters ++ normalVideo fps)

/-- The graph with a sound node of the common format. -/
def addAudio (g : Draft α) (op : String) (inputs : List Ref) (filters : List (Filter α)) :
    Draft α × Int :=
  g.add op .audio inputs (filters ++ normalAudio)

end Draft

namespace Scene

/-- The filters that take a clip's picture from its media. -/
def cutFilters (clip : Clip α ι) : List (Filter α) :=
  if clip.kind = .image then [.holdFrame, .cutLength clip.visibleDuration, .resetTime]
  else [.cutSpan clip.trimIn clip.visibleDuration, .resetTime]

/-- The filters of a crop that is not the whole frame. -/
def cropFilters (clip : Clip α ι) : List (Filter α) :=
  match clip.crop with
  | some c => if c.isIdentity then [] else [.crop c.x c.y c.width c.height]
  | none => []

/-- The filters of a clip's picture. -/
def pictureFilters [BEq ι] (s : Scene α ι) (clip : Clip α ι) (fades : List (Transition α ι)) :
    List (Filter α) :=
  cutFilters clip ++ cropFilters clip ++ fitFrame s.width s.height ++
    (match s.timeline.lookFor clip.id with
      | some look => look.filters
      | none => []) ++
    fades.flatMap fun x => x.fadeFilters clip.visibleDuration

/-- Whether a clip of the lane has no sound of its own. -/
def isSilent (s : Scene α ι) (clip : Clip α ι) : Bool :=
  clip.kind == .image || clip.audioMuted ||
    (s.timeline.lastTrack? clip.trackId).any (·.muted) ||
    !(s.library.get? clip.mediaId).any (·.hasAudio)

/-- The loudness of a track that is not at its full. -/
def volumeFilters (gain : α) : List (Filter α) := if gain == 1.0 then [] else [.volume gain]

/-- The filters of a clip's own sound. -/
def soundFilters (s : Scene α ι) (clip : Clip α ι) (fades : List (Transition α ι)) :
    List (Filter α) :=
  [.soundSpan clip.trimIn clip.visibleDuration, .soundResetTime, .soundPad,
    .soundLength clip.visibleDuration] ++
    (match s.timeline.lastTrack? clip.trackId with
      | some track => volumeFilters track.gain
      | none => []) ++
    fades.flatMap fun x => x.soundFadeFilters clip.visibleDuration

/-- The graph with the nodes of a clip of the lane. -/
def addClip [BEq ι] (s : Scene α ι) (g : Draft α) (index : Nat) (clip : Clip α ι)
    (fades : List (Transition α ι)) : Draft α × Strand :=
  let (g, video) := g.addVideo s.fps "clip" [.source index .video] (s.pictureFilters clip fades)
  let (g, audio) :=
    if s.isSilent clip then g.addAudio "clip" [] [.silence clip.visibleDuration]
    else g.addAudio "clip" [.source index .audio] (s.soundFilters clip fades)
  (g, ⟨video, audio⟩)

/-- The graph with the nodes of some clips of the lane, by their indices. -/
def addClips [BEq ι] (s : Scene α ι) (lane : List (Clip α ι)) (grouping : Grouping α ι) :
    Draft α → List Nat → Draft α × List (Nat × Strand)
  | g, [] => (g, [])
  | g, index :: rest =>
    match lane[index]? with
    | none => s.addClips lane grouping g rest
    | some clip =>
      let (g, strand) := s.addClip g index clip (grouping.fadesOf index)
      let (g, strands) := s.addClips lane grouping g rest
      (g, (index, strand) :: strands)

/-- The graph with a node that joins what there is of a run with its next clip. -/
def addJoin (s : Scene α ι) (g : Draft α) (sofar next : Strand) (join : Join α ι) :
    Draft α × Strand :=
  match join.transition with
  | some x =>
    let (g, video) := g.addVideo s.fps "xfade" [.node sofar.video, .node next.video]
      [.crossFade x.kind join.overlap join.offset]
    let (g, audio) := g.addAudio "acrossfade" [.node sofar.audio, .node next.audio]
      [.soundCrossFade join.overlap]
    (g, ⟨video, audio⟩)
  | none =>
    let (g, video) := g.addVideo s.fps "concat" [.node sofar.video, .node next.video]
      [.concat 2 .video]
    let (g, audio) := g.addAudio "concat" [.node sofar.audio, .node next.audio]
      [.concat 2 .audio]
    (g, ⟨video, audio⟩)

/-- The graph with the joins of a run, in order. -/
def addJoins (s : Scene α ι) (strands : List (Nat × Strand)) :
    Draft α → Strand → List (Join α ι) → Draft α × Strand
  | g, sofar, [] => (g, sofar)
  | g, sofar, join :: rest =>
    match strands.find? (·.1 == join.right) with
    | none => s.addJoins strands g sofar rest
    | some (_, next) =>
      let (g, sofar) := s.addJoin g sofar next join
      s.addJoins strands g sofar rest

/-- The graph with the nodes of a run. -/
def addRun [BEq ι] (s : Scene α ι) (lane : List (Clip α ι)) (grouping : Grouping α ι) (g : Draft α)
    (run : Run α ι) : Draft α × Strand :=
  let (g, strands) := s.addClips lane grouping g run.clips
  match strands with
  | [] => (g, ⟨0, 0⟩)
  | (_, first) :: _ => s.addJoins strands g first run.joins

/-- The graph with the nodes of a gap. -/
def addGap (s : Scene α ι) (g : Draft α) (duration : α) : Draft α × Strand :=
  let (g, video) := g.addVideo s.fps "gap" []
    [.colorSource "black" s.width s.height duration s.fps]
  let (g, audio) := g.addAudio "gap" [] [.silence duration]
  (g, ⟨video, audio⟩)

/-- The graph with the nodes of all parts of the picture. -/
def addPieces [BEq ι] (s : Scene α ι) (lane : List (Clip α ι)) (grouping : Grouping α ι) :
    Draft α → List (Piece α ι) → Draft α × List (Segment α ι)
  | g, [] => (g, [])
  | g, piece :: rest =>
    let (g, strand) := match piece with
      | .gap d => s.addGap g d
      | .run run => s.addRun lane grouping g run
    let segment : Segment α ι :=
      ⟨piece.kind, strand, piece.duration,
        piece.clips.filterMap fun i => (lane[i]?).map (·.id)⟩
    let (g, segments) := s.addPieces lane grouping g rest
    (g, segment :: segments)

/-- The graph with the segments put one after another. -/
def assemble (g : Draft α) (segments : List (Segment α ι)) : Draft α × Strand :=
  let joined (stream : Stream) : List (Filter α) :=
    if segments.length = 1 then [.pass stream] else [.concat segments.length stream]
  let (g, video) := g.add "assemble" .video (segments.map fun x => .node x.strand.video)
    (joined .video)
  let (g, audio) := g.add "assemble" .audio (segments.map fun x => .node x.strand.audio)
    (joined .audio)
  (g, ⟨video, audio⟩)

/-- Whether an overlay is seen in an export of some length. -/
def shows (total : α) (o : Overlay α) : Bool := !isBlankText o.text && !decide (total ≤ o.start)

/-- The graph with overlays drawn one after another. -/
def addOverlays (s : Scene α ι) (font : String) (total : α) :
    Draft α → Int → List (Overlay α) → Except (CompileError α ι) (Draft α × Int)
  | g, video, [] => .ok (g, video)
  | g, video, o :: rest =>
    if shows total o then
      match o.drawn (.whole s.width) (.whole s.height) o.start (Scalar.smaller o.finish total) font with
      | .error cause => .error (.unmeasurable cause)
      | .ok filter =>
        let (g, video) := g.add "drawtext" .video [.node video] [filter]
        s.addOverlays font total g video rest
    else s.addOverlays font total g video rest

/-- What has been mixed so far: the files and the nodes that are heard. -/
structure Mix (α : Type) (ι : Type := String) where
  graph : Draft α
  inputs : List (Input ι)
  heard : List Int

/-- A clip of the lane or of an audio track as a file for the engine. -/
def input (s : Scene α ι) (clip : Clip α ι) (kind : MediaKind) : Input ι :=
  ⟨((s.library.get? clip.mediaId).map (·.source)).getD "", kind, clip.id⟩

/-- The filters of an audio clip on a track of some loudness, delayed to its start. -/
def trackFilters (clip : Clip α ι) (gain : α) (milliseconds : Int) : List (Filter α) :=
  [.soundSpan clip.trimIn clip.visibleDuration, .soundResetTime] ++ volumeFilters gain ++
    [.delay milliseconds]

/-- The mix with the audio clips that start within an export of some length. -/
def addHeard (s : Scene α ι) (total : α) :
    Mix α ι → List (Clip α ι) → Except (CompileError α ι) (Mix α ι)
  | m, [] => .ok m
  | m, clip :: rest =>
    if total ≤ clip.start then s.addHeard total m rest
    else
      match s.timeline.lastTrack? clip.trackId with
      | none => .error (.strayTrack clip.trackId)
      | some track =>
        match measure (clip.start * 1000.0) with
        | .error cause => .error (.unmeasurable cause)
        | .ok ms =>
          let (g, node) := m.graph.addAudio "audio_track" [.source m.inputs.length .audio]
            (trackFilters clip track.gain ms)
          s.addHeard total ⟨g, m.inputs ++ [s.input clip .audio], m.heard ++ [node]⟩ rest

/-- The graph with the assembled sound and the audio clips mixed. -/
def mix (m : Mix α ι) (audio : Int) : Draft α × Int :=
  if m.heard.isEmpty then (m.graph, audio)
  else
    let nodes := audio :: m.heard
    m.graph.addAudio "amix" (nodes.map .node) [.mix nodes.length]

end Scene

/-- The graph of a timeline, the texts in a given font. -/
def compile [BEq ι] [Label ι α] (t : Timeline α ι) (library : Library α) (settings : ExportSettings) (font : String) :
    Except (CompileError α ι) (Compiled α ι) := do
  let (width, height) := settings.frame t.aspectRatio
  let lane ← t.lane
  let heard := t.heardClips
  match (firstMissing? library lane) <|> (firstMissing? library heard) with
  | some c => .error (.missingMedia c)
  | none =>
    if lane.isEmpty then .error .empty
    else if !(Timeline.laneKeys lane t.transitions).all (Label.isKey α) then .error .noKey
    else
      let scene : Scene α ι := ⟨t, library, width, height, settings.rate.value⟩
      let grouping := groupClips lane (detectGaps lane) t.transitions
      let (g, segments) := scene.addPieces lane grouping Graph.empty grouping.pieces
      let (g, assembled) := Scene.assemble g segments
      let total := grouping.duration
      let (g, video) ← scene.addOverlays font total g assembled.video t.overlays
      let inputs := lane.map fun c => scene.input c c.kind
      let m ← scene.addHeard total ⟨g, inputs, []⟩ heard
      let (g, audio) := Scene.mix m assembled.audio
      let (g, videoOut) := g.add "output" .video [.node video] [.pass .video]
      let (g, audioOut) := g.add "output" .audio [.node audio] [.pass .audio]
      .ok ⟨g, m.inputs, segments, width, height, settings.rate, total,
        overlapWarnings 0.0 lane, ⟨videoOut, audioOut⟩⟩

end Montage
