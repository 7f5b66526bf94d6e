/-
How the clips of the picture are stitched together.

Clips with no gap between them form a run. Where two of its clips meet there is
a cross-fade if a transition claims the place, and a plain cut otherwise; runs
are separated by gaps. A transition that no meeting place claims fades its clip
alone.
-/
import Montage.Layout.Gap

namespace Montage

variable {α ι : Type}

/-- The place of a transition: the index of a clip, and a side. -/
abbrev Junction := Nat × Side

/-- The transitions by their places, in the order they are listed. -/
abbrev TransitionTable (α : Type) (ι : Type := String) := List (Junction × Transition α ι)

namespace TransitionTable

/-- The transition at a place. -/
def get? (table : TransitionTable α ι) (place : Junction) : Option (Transition α ι) :=
  (table.find? (·.1 == place)).map (·.2)

/-- The table with a transition more, unless its place is taken. -/
def offer (table : TransitionTable α ι) (place : Junction) (x : Transition α ι) :
    TransitionTable α ι :=
  if table.any (·.1 == place) then table else table ++ [(place, x)]

end TransitionTable

/-- The last index of a clip with an id. -/
def lastIndex? {κ : Type} [BEq κ] (ids : List κ) (id : κ) : Option Nat :=
  (ids.zipIdx.reverse.find? (·.1 == id)).map (·.2)

/-- The first transition for each place of the clips with these ids. -/
def transitionTable [BEq ι] (ids : List ι) (transitions : List (Transition α ι)) :
    TransitionTable α ι :=
  transitions.foldl (fun table x =>
    if x.kind = .none then table
    else match lastIndex? ids x.clipId with
      | some index => table.offer (index, x.side) x
      | none => table) []

/-- Where two clips of a run meet. `offset` is the time in the run at which the
second one starts, and `overlap` how long both are seen. -/
structure Join (α : Type) (ι : Type := String) where
  left : Nat
  right : Nat
  transition : Option (Transition α ι)
  overlap : α
  offset : α
deriving BEq, Repr

/-- Clips that follow one another without a gap. -/
structure Run (α : Type) (ι : Type := String) where
  clips : List Nat
  joins : List (Join α ι)
  duration : α
deriving BEq, Repr

/-- A part of the picture. -/
inductive Piece (α : Type) (ι : Type := String) where
  | gap (duration : α)
  | run (run : Run α ι)
deriving BEq, Repr

/-- What a part of the picture is made of. -/
inductive PieceKind where
  | gap
  | clip
  | merged
deriving BEq, DecidableEq, Repr, Inhabited

def PieceKind.word : PieceKind → String
  | .gap => "gap"
  | .clip => "clip"
  | .merged => "merged"

namespace Piece

def kind : Piece α ι → PieceKind
  | .gap _ => .gap
  | .run r => if r.joins.isEmpty then .clip else .merged

def duration : Piece α ι → α
  | .gap d => d
  | .run r => r.duration

def clips : Piece α ι → List Nat
  | .gap _ => []
  | .run r => r.clips

def joins : Piece α ι → List (Join α ι)
  | .gap _ => []
  | .run r => r.joins

end Piece

/-- The picture as a list of parts, and the transitions by their places. -/
structure Grouping (α : Type) (ι : Type := String) where
  pieces : List (Piece α ι)
  table : TransitionTable α ι
deriving BEq, Repr

variable [Scalar α]

/-- A cross-fade takes no more than this share of either clip. -/
def maxOverlapShare : α := 0.9

/-- A run of one clip. -/
def Run.single (index : Nat) (duration : α) : Run α ι := ⟨[index], [], duration⟩

/-- The place where a run of some length, ending in a clip of length `left`, meets
a clip of length `right`. -/
def Join.make (index : Nat) (transition : Option (Transition α ι)) (total left right : α) :
    Join α ι :=
  match transition with
  | some x =>
    let overlap := Scalar.smaller
      (Scalar.smaller x.duration (left * maxOverlapShare)) (right * maxOverlapShare)
    ⟨index, index + 1, some x, overlap, Scalar.larger 0.0 (total - overlap)⟩
  | none => ⟨index, index + 1, none, 0.0, total⟩

/-- A run with a clip of some length more. -/
def Run.extend (r : Run α ι) (join : Join α ι) (right : α) : Run α ι :=
  ⟨r.clips ++ [join.right], r.joins ++ [join], join.offset + right⟩

/-- The transition that claims the place between a clip and the next one: the one
into the next clip, or else the one out of this. -/
def TransitionTable.claim? (table : TransitionTable α ι) (index : Nat) : Option (Transition α ι) :=
  table.get? (index + 1, .start) <|> table.get? (index, .finish)

/-- The length of the gap in front of a clip. -/
def gapBefore? (gaps : List (Gap α)) (index : Nat) : Option α :=
  (gaps.reverse.find? (·.before == index)).map (·.duration)

/-- The parts from an open run on. `index` and `left` are the index and length of
its last clip, the list holds the lengths of the clips after it. -/
def piecesFrom (gaps : List (Gap α)) (table : TransitionTable α ι) (growing : Run α ι) (index : Nat)
    (left : α) : List α → List (Piece α ι)
  | [] => [.run growing]
  | right :: rest =>
    match gapBefore? gaps (index + 1) with
    | some d =>
      .run growing :: .gap d :: piecesFrom gaps table (Run.single (index + 1) right) (index + 1)
        right rest
    | none =>
      let join := Join.make index (table.claim? index) growing.duration left right
      piecesFrom gaps table (growing.extend join right) (index + 1) right rest

/-- The parts of a picture whose clips have these lengths. -/
def pieces (gaps : List (Gap α)) (table : TransitionTable α ι) : List α → List (Piece α ι)
  | [] => []
  | first :: rest =>
    ((gapBefore? gaps 0).map Piece.gap).toList ++
      piecesFrom gaps table (Run.single 0 first) 0 first rest

/-- The clips stitched together. -/
def groupClips [BEq ι] (clips : List (Clip α ι)) (gaps : List (Gap α))
    (transitions : List (Transition α ι)) : Grouping α ι :=
  let table := transitionTable (clips.map (·.id)) transitions
  ⟨pieces gaps table (clips.map Clip.visibleDuration), table⟩

namespace Grouping

/-- The length of the picture. -/
def duration (g : Grouping α ι) : α := Scalar.sum (g.pieces.map Piece.duration)

/-- Whether a place lies where two clips of a run meet. -/
def consumes (g : Grouping α ι) (place : Junction) : Bool :=
  g.pieces.any fun p => p.joins.any fun j =>
    place == (j.right, .start) || place == (j.left, .finish)

/-- The transitions that no meeting place claims, by the index of their clip. -/
def edgeFades (g : Grouping α ι) : List (Nat × Transition α ι) :=
  (g.table.filter fun entry => !g.consumes entry.1).map fun entry => (entry.1.1, entry.2)

/-- The transitions that fade one clip alone. -/
def fadesOf (g : Grouping α ι) (index : Nat) : List (Transition α ι) :=
  (g.edgeFades.filter (·.1 == index)).map (·.2)

/-- The fields of the place where two clips meet. -/
def joinFields (j : Join α ι) : Fields α :=
  [("left", .int j.left), ("right", .int j.right),
    ("transition", .optionalText (j.transition.map (·.id))),
    ("crossfade", .bool j.transition.isSome), ("overlap", .real j.overlap),
    ("offset", .real j.offset)]

/-- The fields of a part of the picture. -/
def pieceFields (p : Piece α ι) : Fields α :=
  [("kind", .text p.kind.word), ("duration", .real p.duration),
    ("clips", .list (p.clips.map fun (i : Nat) => .int i)),
    ("joins", .list (p.joins.map fun j => .object (joinFields j)))]

/-- The fields of a picture of some clips. A picture without parts has no length. -/
def fields (g : Grouping α ι) (count : Nat) : Fields α :=
  let fades := (List.range count).filter fun i => !(g.fadesOf i).isEmpty
  [("table", .list (g.table.map fun ((i, side), x) =>
      .list [.int i, .text side.word, .text x.id])),
    ("segments", .list (g.pieces.map fun p => .object (pieceFields p))),
    ("edge_fades", .list (fades.map fun (i : Nat) =>
      .list [.int i, .texts ((g.fadesOf i).map (·.id))])),
    ("duration", if g.pieces.isEmpty then .int 0 else .real g.duration)]

end Grouping

end Montage
