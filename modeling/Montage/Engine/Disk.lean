/-
The files and directories that a run of the engine sees.

A disk lists what stands at each location, a location being the names from the root.
A path is followed name by name through directories; a double point leads back
to the directory above. A name is written in bytes, where the second half of a pair may
stand for a byte that belongs to no character. What the disk refuses to do it refuses with a cause, and
says for which paths.
-/
import Montage.Engine.Path
import Montage.Text.Quoted
import Montage.Text.Utf8

namespace Montage

/-- What stands at a place. -/
inductive Entry where
  | directory
  | file (content : String)
deriving BEq, DecidableEq, Repr, Inhabited

/-- The names from the root. -/
abbrev Location := List String

/-- What stands where, and the directory that relative paths start from. -/
structure Disk where
  entries : List (Location × Entry)
  here : Location
deriving BEq, DecidableEq, Repr, Inhabited

/-- Why the disk refuses. -/
inductive DiskError where
  | missing
  | busy
  | occupied
  | notDirectory
  | isDirectory
  | nameTooLong
  | notEmpty
  /-- A name with a null character, which no file has. -/
  | nullName
  /-- A name that cannot be written in bytes. -/
  | unwritable (u : Unwritable)
deriving BEq, DecidableEq, Repr, Inhabited

/-- What the system says of an error. -/
def DiskError.message : DiskError → String
  | .missing => "[Errno 2] No such file or directory"
  | .busy => "[Errno 16] Device or resource busy"
  | .occupied => "[Errno 17] File exists"
  | .notDirectory => "[Errno 20] Not a directory"
  | .isDirectory => "[Errno 21] Is a directory"
  | .nameTooLong => "[Errno 36] File name too long"
  | .notEmpty => "[Errno 39] Directory not empty"
  | .nullName => "embedded null byte"
  | .unwritable u => u.message

/-- Whether the system is asked at all, so that the error is its own. -/
def DiskError.isOfSystem : DiskError → Bool
  | .nullName => false
  | .unwritable _ => false
  | _ => true

/-- What the disk refuses to do: the cause, and the paths that it was asked for. -/
structure DiskFailure where
  cause : DiskError
  paths : List Path
deriving BEq, DecidableEq, Repr, Inhabited

/-- What is said of a failure; the system names the paths as well. -/
def DiskFailure.message (f : DiskFailure) : String :=
  if f.cause.isOfSystem then
    f.cause.message ++ ": " ++ " -> ".intercalate (f.paths.map fun p => Quoted.text p.text)
  else f.cause.message

/-- How many bytes a name has. -/
def byteCount (name : String) : Nat :=
  ((codes name).flatMap fun n => if isByteHalf n then [n] else Utf8.encodeCode n).length

/-- The most bytes that a name may have. -/
def longestName : Nat := 255

/-- The most bytes that a path may have. -/
def longestPath : Nat := 4095

namespace Disk

/-- What stands at a place; the root is a directory. -/
def entry? (d : Disk) (place : Location) : Option Entry :=
  if place.isEmpty then some .directory
  else (d.entries.find? (·.1 == place)).map (·.2)

/-- The disk with something at a place. -/
def set (d : Disk) (place : Location) (e : Entry) : Disk :=
  { d with entries := d.entries.filter (·.1 != place) ++ [(place, e)] }

/-- The disk with nothing at a place. -/
def clear (d : Disk) (place : Location) : Disk :=
  { d with entries := d.entries.filter (·.1 != place) }

/-- The place that names lead to from a place. All but the last name must lead
through directories. -/
def follow (d : Disk) (origin : Location) : List String → Except DiskError Location
  | [] => .ok origin
  | name :: rest =>
    match d.entry? origin with
    | none => .error .missing
    | some (.file _) => .error .notDirectory
    | some .directory =>
      if longestName < byteCount name then .error .nameTooLong
      else d.follow (if name == ".." then origin.dropLast else origin ++ [name]) rest

/-- What is wrong with a path, whatever is on the disk. -/
def flaw? (p : Path) : Option DiskError :=
  match Unwritable.find? isByteHalf p.text with
  | some u => some (.unwritable u)
  | none =>
    if p.text.toList.contains '\x00' then some .nullName
    else if longestPath < byteCount p.text then some .nameTooLong
    else none

/-- The place of a path. -/
def place (d : Disk) (p : Path) : Except DiskError Location :=
  match flaw? p with
  | some e => .error e
  | none => d.follow (if p.root = .here then d.here else []) p.names

/-- What stands at a path. -/
def read? (d : Disk) (p : Path) : Option Entry :=
  match d.place p with
  | .ok place => d.entry? place
  | .error _ => none

/-- Whether a path leads to a directory. -/
def isDirectory (d : Disk) (p : Path) : Bool := d.read? p == some .directory

/-- The disk with a new directory. -/
def makeDirectory (d : Disk) (p : Path) : Except DiskError Disk :=
  match d.place p with
  | .error e => .error e
  | .ok place => if (d.entry? place).isSome then .error .occupied else .ok (d.set place .directory)

/-- The disk with a directory that may be there already. -/
def ensureDirectory (d : Disk) (p : Path) : Except DiskError Disk :=
  match d.makeDirectory p with
  | .ok d => .ok d
  | .error e => if d.isDirectory p then .ok d else .error e

/-- The disk with a directory and those above it; `depth` of them at most. -/
def ensureDirectories (d : Disk) (p : Path) : Nat → Except DiskFailure Disk
  | 0 => (d.ensureDirectory p).mapError (⟨·, [p]⟩)
  | depth + 1 =>
    match d.makeDirectory p with
    | .error .missing => do
      let d ← d.ensureDirectories p.parent depth
      (d.ensureDirectory p).mapError (⟨·, [p]⟩)
    | .ok d => .ok d
    | .error e => if d.isDirectory p then .ok d else .error ⟨e, [p]⟩

/-- The disk with a file of some content. -/
def write (d : Disk) (p : Path) (content : String) : Except DiskFailure Disk :=
  match d.place p with
  | .error e => .error ⟨e, [p]⟩
  | .ok place =>
    match d.entry? place with
    | some .directory => .error ⟨.isDirectory, [p]⟩
    | _ => .ok (d.set place (.file content))

/-- The disk with a file of some content, and the directories above it. -/
def deposit (d : Disk) (p : Path) (content : String) : Except DiskFailure Disk := do
  (← d.ensureDirectories p.parent p.names.length).write p content

/-- The files inside a directory: their paths from there, and what is in them. -/
def filesIn (d : Disk) (directory : Location) : List (String × String) :=
  d.entries.filterMap fun (place, e) =>
    match e with
    | .file content =>
      if directory.isPrefixOf place then
        some ("/".intercalate (place.drop directory.length), content)
      else none
    | .directory => none

/-- The disk without a file. -/
def remove (d : Disk) (p : Path) : Except DiskError Disk :=
  match d.place p with
  | .error e => .error e
  | .ok place =>
    match d.entry? place with
    | none => .error .missing
    | some .directory => .error .isDirectory
    | some (.file _) => .ok (d.clear place)

/-- The disk without a file, if there was one. -/
def removeIfThere (d : Disk) (p : Path) : Except DiskFailure Disk :=
  match d.remove p with
  | .ok d => .ok d
  | .error .missing => .ok d
  | .error e => .error ⟨e, [p]⟩

/-- Whether something stands inside a directory. -/
def hasContent (d : Disk) (directory : Location) : Bool :=
  d.entries.any fun f => directory.isPrefixOf f.1 && f.1 != directory

/-- The disk with a directory and all inside it at another place. -/
def relocate (d : Disk) (source target : Location) : Disk :=
  { d with entries := (d.clear target).entries.map fun (place, e) =>
    if source.isPrefixOf place then (target ++ place.drop source.length, e) else (place, e) }

/-- Where something that is moved stands and where it goes. A double point at the end of
either path is no name to move. -/
def moved (d : Disk) (source target : Path) : Except DiskError (Entry × Location × Location) := do
  if let some e := flaw? source <|> flaw? target then throw e
  let _ ← d.place source.parent
  let _ ← d.place target.parent
  if source.name? == some ".." || target.name? == some ".." then throw .busy
  let old ← d.place source
  match d.entry? old with
  | none => throw .missing
  | some e => return (e, old, ← d.place target)

/-- The disk with a file moved to another path, over the file there, or a directory
moved over an empty one. -/
def move (d : Disk) (source target : Path) : Except DiskFailure Disk :=
  let fail (e : DiskError) : Except DiskFailure Disk := .error ⟨e, [source, target]⟩
  match d.moved source target with
  | .error e => fail e
  | .ok (.file content, old, new) =>
    match d.entry? new with
    | some .directory => fail .isDirectory
    | _ => .ok ((d.clear old).set new (.file content))
  | .ok (.directory, old, new) =>
    match d.entry? new with
    | some (.file _) => fail .notDirectory
    | _ => if d.hasContent new then fail .notEmpty else .ok (d.relocate old new)

end Disk

end Montage
