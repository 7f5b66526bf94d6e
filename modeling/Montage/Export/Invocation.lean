/-
How the engine is called for a compiled timeline: its inputs, the graph, the
codecs of the container, and the output, with progress on its standard output.
-/
import Montage.Export.Compile

namespace Montage

def Container.videoCodec : Container → String
  | .mp4 => "libx264"
  | .webm => "libvpx-vp9"

def Container.audioCodec : Container → String
  | .mp4 => "aac"
  | .webm => "libopus"

/-- The constant rate factor. -/
def Quality.factor : Quality → String
  | .high => "18"
  | .medium => "23"
  | .low => "28"

/-- How much time the encoder takes. -/
def Quality.preset : Quality → String
  | .high => "slow"
  | .medium => "medium"
  | .low => "veryfast"

variable {α ι : Type} [Scalar α]

/-- The options of the video codec of a container. -/
def videoOptions (container : Container) (quality : Quality) : List String :=
  match container with
  | .mp4 => ["-preset", quality.preset, "-movflags", "+faststart"]
  | .webm => ["-b:v", "0"]

/-- The arguments between the engine and the output, around a graph given as text. -/
def Compiled.options (c : Compiled α ι) (settings : ExportSettings) (graph : String) :
    List String :=
  ["-y", "-hide_banner"] ++ (c.inputs.flatMap fun i => ["-i", i.uri]) ++
    ["-filter_complex", graph, "-map", "[" ++ (Ref.node c.output.video).label ++ "]",
      "-map", "[" ++ (Ref.node c.output.audio).label ++ "]",
      "-c:v", settings.container.videoCodec, "-crf", settings.quality.factor] ++
    videoOptions settings.container settings.quality ++
    ["-c:a", settings.container.audioCodec, "-r", toString c.rate.value, "-pix_fmt", "yuv420p",
      "-progress", "pipe:1", "-nostats"]

/-- The fields of a file for the engine. -/
def Input.fields [Label ι α] (i : Input ι) : Fields α :=
  [("uri", .text i.uri), ("kind", .text i.kind.word), ("clip_id", Label.data i.clipId)]

/-- The fields of a part of the export. -/
def Segment.fields [Label ι α] (x : Segment α ι) : Fields α :=
  [("kind", .text x.kind.word), ("video", .int x.strand.video), ("audio", .int x.strand.audio),
    ("duration", .real x.duration), ("clip_ids", .list (x.clipIds.map Label.data))]

/-- The fields of a compiled timeline. -/
def Compiled.fields [Label ι α] (c : Compiled α ι) : Fields α :=
  let lines := c.graph.lines Filter.text
  [("size", .list [.int c.width, .int c.height, .int c.rate.value]),
    ("duration", .real c.duration), ("inputs", .list (c.inputs.map fun i => .object i.fields)),
    ("segments", .list (c.segments.map fun x => .object x.fields)),
    ("warnings", .texts c.warnings),
    ("nodes", .list ((c.graph.nodes.zip lines).map fun (n, line) =>
      .texts [n.op, n.stream.word, line])),
    ("out", .list [.int c.output.video, .int c.output.audio])]

/-- The graph in the engine's language. -/
def Compiled.graphText (c : Compiled α ι) : String := c.graph.text Filter.text

/-- The arguments of the engine. -/
def Compiled.invocation (c : Compiled α ι) (settings : ExportSettings) (engine output : String) :
    List String :=
  engine :: c.options settings c.graphText ++ [output]

end Montage
