/-
Graphs put together from data.

A node is an object with its operation, its stream, what it reads and its filters. It may
read a node before it, by its index, or a stream of an input. A node that reads one which
is not there is left out.
-/
import Montage.Export.Graph
import Montage.Json.Shown

namespace Montage

/-- Why data describe no node. -/
inductive BadNode where
  | noField (name : String)
  /-- A list or a text is too short. -/
  | noItem (inText : Bool)
  | illTyped
deriving BEq, DecidableEq, Repr

/-- What a node of a sketch reads: the label of a stream, and the index of the node that it
belongs to, unless it is one of an input. -/
structure SketchRef where
  label : String
  node : Option Int
deriving BEq, DecidableEq, Repr

/-- A graph described by data, up to some node. -/
structure Sketch (α : Type) where
  /-- The operation of each node. -/
  ops : List (Json α)
  /-- The line of each node without its own label; none if a filter is no text. -/
  lines : List (Option String)
  /-- The index of each node in turn, or the label of the one that it reads in vain. -/
  added : List (Except String Nat)

namespace Sketch

variable {α : Type} [Scalar α]

def empty : Sketch α := ⟨[], [], []⟩

/-- The stream of an input that a value tells by its first two parts. -/
def source (j : Json α) : Except BadNode SketchRef :=
  match j with
  | .object _ => .error (.noField "0")
  | j =>
    match j.elements? with
    | some (input :: stream :: _) =>
      let mark := match stream with
        | .text "video" => ":v"
        | _ => ":a"
      .ok ⟨input.named ++ mark, none⟩
    | some _ => .error (.noItem (j matches .text _))
    | none => .error .illTyped

/-- What a value says is read; a whole number or a boolean is the index of a node. -/
def ref : Json α → Except BadNode SketchRef
  | .int n => .ok ⟨"n" ++ toString n, some n⟩
  | .bool b => .ok ⟨"n" ++ (Json.bool b : Json α).named, some (if b then 1 else 0)⟩
  | j => source j

/-- A field that must be there. -/
def field (fs : Fields α) (name : String) : Except BadNode (Json α) :=
  (fs.get? name).elim (.error (.noField name)) .ok

/-- What a value is made of. -/
def elements (j : Json α) : Except BadNode (List (Json α)) :=
  j.elements?.elim (.error .illTyped) .ok

/-- A text, if a value is one. -/
def filter? : Json α → Option String
  | .text s => some s
  | _ => none

/-- The sketch with the node that data describe. -/
def add (k : Sketch α) (j : Json α) : Except BadNode (Sketch α) := do
  let .object fs := j | throw .illTyped
  let op ← field fs "op"
  let _ ← field fs "stream"
  let refs ← (← elements (← field fs "inputs")).mapM ref
  let filters ← elements (← field fs "filters")
  let isMissing (r : SketchRef) : Bool :=
    r.node.any fun n => decide (n < 0) || decide ((k.lines.length : Int) ≤ n)
  match refs.find? isMissing with
  | some r => return { k with added := k.added ++ [.error r.label] }
  | none =>
    let labels := String.join (refs.map fun r => "[" ++ r.label ++ "]")
    let line := (filters.mapM filter?).map fun ss => labels ++ ",".intercalate ss
    return ⟨k.ops ++ [op], k.lines ++ [line], k.added ++ [.ok k.lines.length]⟩

/-- The sketch of the nodes that data describe in turn. -/
def ofData (js : List (Json α)) : Except BadNode (Sketch α) := js.foldlM add empty

/-- The lines of the nodes, each with its own label; none if a filter is no text. -/
def written? (k : Sketch α) : Option (List String) :=
  (k.lines.mapM id).map fun lines =>
    lines.zipIdx.map fun (line, n) => line ++ "[n" ++ toString n ++ "]"

end Sketch

end Montage
