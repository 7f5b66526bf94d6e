/-
How a render fails.

An engine error says at which stage it arose and may hint at a remedy; a render
that was called off is one of its own. Anything else that goes wrong is a crash,
known by a kind and a text.
-/
import Montage.Json.Value

namespace Montage

/-- An error of the engine. -/
structure EngineError where
  reason : String
  stage : String
  hint : Option String
  tail : Option String
deriving BEq, DecidableEq, Repr, Inhabited

/-- What an engine error says, with its stage and its hint. -/
def EngineError.message (e : EngineError) : String :=
  "[" ++ e.stage ++ "] " ++ e.reason ++
    match e.hint with
    | some hint => if hint.isEmpty then "" else " (hint: " ++ hint ++ ")"
    | none => ""

/-- The fields of an engine error. -/
def EngineError.fields {α : Type} (e : EngineError) : Fields α :=
  let part (name : String) (s : Option String) : Fields α := s.toList.map fun t => (name, .text t)
  [("message", .text e.message), ("stage", .text e.stage)] ++ part "hint" e.hint ++
    part "stderr_tail" e.tail

/-- An unforeseen failure. -/
structure Crash where
  kind : String
  text : String
deriving BEq, DecidableEq, Repr, Inhabited

/-- What a render that was called off says. -/
def cancellation : EngineError := ⟨"render cancelled", "cancelled", none, none⟩

end Montage
