/-
Filter graphs: nodes that read streams of inputs or of nodes before them.

A node is added after all others and may only read nodes that are there, so a
graph has no cycles. Each node's stream is labelled by its index.
-/
namespace Montage

inductive Stream where
  | video
  | audio
deriving BEq, DecidableEq, Repr, Inhabited

def Stream.word : Stream → String
  | .video => "video"
  | .audio => "audio"

/-- What a node reads: the stream of a node, or a stream of an input. -/
inductive Ref where
  | node (index : Int)
  | source (input : Int) (stream : Stream)
deriving BEq, DecidableEq, Repr, Inhabited

/-- The label of a stream. -/
def Ref.label : Ref → String
  | .node index => "n" ++ toString index
  | .source input .video => toString input ++ ":v"
  | .source input .audio => toString input ++ ":a"

/-- One step of the graph, over a type of filters. -/
structure Node (φ : Type) where
  op : String
  stream : Stream
  inputs : List Ref
  filters : List φ
deriving BEq, Repr

structure Graph (φ : Type) where
  nodes : List (Node φ)
deriving BEq, Repr

namespace Graph

variable {φ : Type}

def empty : Graph φ := ⟨[]⟩

def size (g : Graph φ) : Nat := g.nodes.length

/-- The graph with a node at the end. -/
def push (g : Graph φ) (n : Node φ) : Graph φ := ⟨g.nodes ++ [n]⟩

/-- The index of a node that is read but not there. -/
def missing? (g : Graph φ) : Ref → Option Int
  | .node index => if 0 ≤ index ∧ index < g.size then none else some index
  | .source _ _ => none

/-- The graph with a node at the end, or the first node that it reads in vain. -/
def add (g : Graph φ) (n : Node φ) : Except Int (Graph φ) :=
  match n.inputs.findSome? g.missing? with
  | some index => .error index
  | none => .ok (g.push n)

/-- The operations of the nodes, in order. -/
def ops (g : Graph φ) : List String := g.nodes.map (·.op)

/-- The nodes of one operation. -/
def nodesOf (g : Graph φ) (op : String) : List (Node φ) := g.nodes.filter (·.op == op)

/-- A node with its index as a line of the engine's language. -/
def line (text : φ → String) (index : Nat) (n : Node φ) : String :=
  let label (r : Ref) : String := "[" ++ r.label ++ "]"
  String.join (n.inputs.map label) ++ ",".intercalate (n.filters.map text) ++
    label (.node index)

/-- The lines of the nodes, in order. -/
def lines (g : Graph φ) (text : φ → String) : List String :=
  g.nodes.zipIdx.map fun (n, index) => line text index n

/-- The whole graph in the engine's language. -/
def text (g : Graph φ) (filter : φ → String) : String := ";".intercalate (g.lines filter)

end Graph

end Montage
