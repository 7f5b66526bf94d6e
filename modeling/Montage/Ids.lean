/-
Names for new things.

Names are issued in order and never twice: the first is `id1`, the next `id2`.
Giving names back is going on with the earlier supply.
-/
namespace Montage

/-- How many names have been issued. -/
structure Ids where
  issued : Nat
deriving BEq, DecidableEq, Repr, Inhabited

namespace Ids

/-- No name issued yet. -/
def start : Ids := ⟨0⟩

/-- The name that is issued next. -/
def next (ids : Ids) : String := "id" ++ toString (ids.issued + 1)

/-- The supply after issuing a name. -/
def rest (ids : Ids) : Ids := ⟨ids.issued + 1⟩

/-- A given name, or the next one if none or an empty one is given. -/
def choose (ids : Ids) (given : Option String) : String × Ids :=
  match given with
  | some name => if name.isEmpty then (ids.next, ids.rest) else (name, ids)
  | none => (ids.next, ids.rest)

end Ids

end Montage
