/-
Paths of files, as names separated by slashes.

Empty names and single points do not count, double points stay. A path starts with no
slash, with one, or with just two, which stay two. The last name of a path splits at its last point into a stem and a suffix; a point at either end
starts no suffix.
-/
namespace Montage

/-- Where a path starts from. -/
inductive Path.Root where
  | here
  | top
  /-- The top, written with two slashes. -/
  | twice
deriving BEq, DecidableEq, Repr, Inhabited

structure Path where
  root : Path.Root
  names : List String
deriving BEq, DecidableEq, Repr, Inhabited

namespace Path

/-- The slashes of a start. -/
def Root.text : Root → String
  | .here => ""
  | .top => "/"
  | .twice => "//"

/-- The start that the slashes of a text stand for. -/
def Root.ofText (s : String) : Root :=
  if !s.startsWith "/" then .here
  else if s.startsWith "//" && !s.startsWith "///" then .twice
  else .top

/-- The path that a text names. -/
def ofText (s : String) : Path :=
  ⟨Root.ofText s, ((s.toList.splitOn '/').map String.ofList).filter fun name => name ≠ "" && name ≠ "."⟩

/-- A path as text; the empty one is a point. -/
def text (p : Path) : String :=
  if p.root = .here ∧ p.names.isEmpty then "." else p.root.text ++ "/".intercalate p.names

/-- The path without its last name. -/
def parent (p : Path) : Path := { p with names := p.names.dropLast }

/-- The last name of a path. -/
def name? (p : Path) : Option String := p.names.getLast?

/-- The characters of a name from its last point on, and those before it. -/
def splitName (name : String) : String × String :=
  let back := name.toList.reverse
  let suffix := (back.takeWhile (· ≠ '.')).reverse
  let stem := ((back.dropWhile (· ≠ '.')).drop 1).reverse
  if stem.isEmpty || suffix.isEmpty then (name, "")
  else (String.ofList stem, String.ofList ('.' :: suffix))

/-- The path with another last name. -/
def withName (p : Path) (name : String) : Path := { p with names := p.names.dropLast ++ [name] }

/-- The path under which a path is written until it is whole; none for a path
without a name. -/
def unfinished? (p : Path) : Option Path :=
  p.name?.map fun name =>
    let (stem, suffix) := splitName name
    p.withName (stem ++ ".partial" ++ suffix)

/-- A name in a directory; an absolute name stays where it is. -/
def join (directory name : String) : String :=
  if name.startsWith "/" || directory.isEmpty then name
  else if directory.endsWith "/" then directory ++ name
  else directory ++ "/" ++ name

end Path

end Montage
