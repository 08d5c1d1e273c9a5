import Chronicle.Files.Path
import Chronicle.Files.Volume

/-!
# A volume in memory

Files and folders without links. A path is followed piece by piece; every piece but the last has to
lead to a folder, and so has the last if a slash or a `.` comes after it. Relative paths are taken
from the working folder. If nothing is said of where it lies, there are folders around it as far up
as a path goes; their names are not known, so no path leads back down into the working folder.

A name has at most 255 bytes and a path at most 4095. Nothing is found under a longer one, and
nothing is made.
-/

namespace Chronicle
namespace Files

/-- Where names are taken from: the top, or a folder some levels above the working folder. -/
inductive Origin
  | top
  | above (levels : Nat)
deriving DecidableEq, Repr

/-- A place in a volume: the names that lead to it from an origin. -/
structure Place where
  origin : Origin
  names : List String := []
deriving DecidableEq, Repr

namespace Place

/-- The working folder, if nothing is said of where it lies. -/
def working : Place := { origin := .above 0 }

/-- The folder that absolute paths are taken from. -/
def top : Place := { origin := .top }

/-- The place of the given name in a folder. -/
def child (p : Place) (name : String) : Place :=
  { p with names := p.names ++ [name] }

/-- The folder around a place; the top lies in itself. -/
def around (p : Place) : Place :=
  match p.names, p.origin with
  | [], .top => p
  | [], .above levels => { origin := .above (levels + 1) }
  | _ :: _, _ => { p with names := p.names.dropLast }

end Place

/-- A name that is not too long. -/
def isName (name : String) : Bool :=
  name.utf8ByteSize ≤ 255

/-- A path that can be followed: it is not too long and has no NUL. -/
def isPath (path : String) : Bool :=
  path.utf8ByteSize ≤ 4095 && !path.toList.contains '\x00'

/-- The files and the folders of a volume, each at its place, and the folder that relative paths are
taken from. -/
structure Memory where
  files : List (Place × ByteArray) := []
  folders : List Place := []
  working : Place := .working

namespace Memory

/-- The place that the pieces of a path are taken from. -/
def start (m : Memory) (path : String) : Place :=
  if (components path).head? = some .root then .top else m.working

/-- What there is at a place. -/
def at? (m : Memory) (p : Place) : Contents :=
  if p.names.isEmpty || m.folders.contains p then .folder
  else
    match m.files.find? fun file => file.1 == p with
    | some file => .bytes file.2
    | none => .absent

/-- The place that pieces lead to from `p`; all but the last piece lead to a folder. -/
def follow? (m : Memory) (p : Place) : List String → Option Place
  | [] => some p
  | piece :: rest =>
    if (m.at? p).isFolder then
      match piece with
      | "" => m.follow? p rest
      | "." => m.follow? p rest
      | ".." => m.follow? p.around rest
      | name => if isName name then m.follow? (p.child name) rest else none
    else none

/-- The place that a path leads to. -/
def locate? (m : Memory) (path : String) : Option Place :=
  if path.isEmpty || !isPath path then none
  else m.follow? (m.start path) (pieces path)

/-- What a path holds. -/
def contents (m : Memory) (path : String) : Contents :=
  match m.locate? path with
  | some p => m.at? p
  | none => .absent

/-- Makes the folders that pieces lead through from `p`, where they are not there. -/
def makeFrom (m : Memory) (p : Place) : List String → Option Memory
  | [] => some m
  | piece :: rest =>
    match piece with
    | "" => m.makeFrom p rest
    | "." => m.makeFrom p rest
    | ".." => m.makeFrom p.around rest
    | name =>
      if isName name then
        let next := p.child name
        match m.at? next with
        | .folder => m.makeFrom next rest
        | .absent => { m with folders := m.folders ++ [next] }.makeFrom next rest
        | .bytes _ => none
      else none

/-- Makes the folders on a path. -/
def makeFolders (m : Memory) (path : String) : Option Memory :=
  if isPath path then m.makeFrom (m.start path) (pieces path) else none

/-- Puts bytes into the file at a place. -/
def put (m : Memory) (p : Place) (b : ByteArray) : Memory :=
  { m with files := (p, b) :: m.files.filter fun file => file.1 != p }

/-- Writes bytes to the file that a path leads to. -/
def write (m : Memory) (path : String) (b : ByteArray) : Option Memory :=
  match m.locate? path with
  | some p => if (m.at? p).isFolder then none else some (m.put p b)
  | none => none

/-- Follows a change that may not succeed, and tells whether it did. -/
def attempt (change : Memory → Option Memory) : StateM Memory Bool := fun m =>
  match change m with
  | some m => (true, m)
  | none => (false, m)

instance : Volume (StateM Memory) where
  contents path := return (← get).contents path
  makeFolders path := attempt (·.makeFolders path)
  write path text := attempt (·.write path text.toUTF8)

end Memory
end Files
end Chronicle
