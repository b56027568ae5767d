import NoteScript.Command.Path
import NoteScript.Text.Space

/-!
# A tree of files

Directories and files under a root, with a place to start relative paths from. A path is walked part by
part, so each part but the last has to be a directory. An operation gives the reason it is refused. A
refused operation changes nothing, but directories that were made for it stay.
-/

namespace NoteScript.Command

/-- What stands at a place: a directory, or a file with its text, which is missing if the bytes of the
file are no text. -/
inductive Entry where
  | directory
  | file (content : Option String)
deriving DecidableEq

/-- Why a path is refused. -/
inductive PathFault where
  | missing
  | notDirectory
  | isDirectory
  | exists
deriving DecidableEq

/-- A tree of files: the place to start from, and what stands at each place. -/
structure FileTree where
  start : List String
  entries : List (List String × Entry)

namespace FileTree

/-- What stands at a place. The root is a directory. -/
def entry? (t : FileTree) (place : List String) : Option Entry :=
  if place.isEmpty then some .directory else (t.entries.find? (·.1 == place)).map (·.2)

/-- Put something at a place. -/
def put (t : FileTree) (place : List String) (e : Entry) : FileTree :=
  { t with entries := t.entries.filter (·.1 != place) ++ [(place, e)] }

/-- Walk from a place. -/
def walk (t : FileTree) (place : List String) : List String → Except PathFault (List String)
  | [] => .ok place
  | part :: rest =>
    match t.entry? place with
    | some .directory => walk t (Path.step place part) rest
    | some (.file _) => .error .notDirectory
    | none => .error .missing

/-- The place that a path leads to. -/
def place (t : FileTree) (p : Path) : Except PathFault (List String) :=
  t.walk (if p.isAbsolute then [] else t.start) p.parts

/-- What stands at the end of a path, if the path leads anywhere. -/
def at? (t : FileTree) (p : Path) : Option Entry :=
  match t.place p with
  | .ok place => t.entry? place
  | .error _ => none

/-- Make a directory where nothing stands. -/
def makeDirectory (t : FileTree) (p : Path) : Except PathFault FileTree := do
  let place ← t.place p
  match t.entry? place with
  | some _ => .error .exists
  | none => .ok (t.put place .directory)

/-- Make a directory, unless there is one. -/
def ensureDirectory (t : FileTree) (p : Path) : Except PathFault FileTree :=
  match t.makeDirectory p with
  | .ok after => .ok after
  | .error .missing => .error .missing
  | .error fault => if t.at? p == some .directory then .ok t else .error fault

/-- Try to change a tree; a change that is refused leaves it as it is. -/
def attempt (t : FileTree) (change : FileTree → Except PathFault FileTree) : Except PathFault Unit × FileTree :=
  match change t with
  | .ok after => (.ok (), after)
  | .error fault => (.error fault, t)

/-- Make a directory and those it is in, unless they are there; the parts are given last part first.
The directories made before one is refused stay. -/
def ensureFrom (t : FileTree) (slashes : Nat) : List String → Except PathFault Unit × FileTree
  | [] => t.attempt (·.ensureDirectory ⟨slashes, []⟩)
  | part :: outer =>
    let p : Path := ⟨slashes, (part :: outer).reverse⟩
    match t.ensureDirectory p with
    | .error .missing =>
      match t.ensureFrom slashes outer with
      | (.ok (), after) => after.attempt (·.ensureDirectory p)
      | refused => refused
    | _ => t.attempt (·.ensureDirectory p)

/-- Make a directory and those it is in, unless they are there. -/
def ensureDirectories (t : FileTree) (p : Path) : Except PathFault Unit × FileTree :=
  t.ensureFrom p.slashes p.parts.reverse

/-- Write a file, a new one or over an old one. -/
def write (t : FileTree) (p : Path) (content : String) : Except PathFault FileTree := do
  let place ← t.place p
  match t.entry? place with
  | some .directory => .error .isDirectory
  | _ => .ok (t.put place (.file (some content)))

end FileTree

/-- What the reading of an input gives. -/
inductive Input where
  | missing
  | directory
  /-- The bytes are no text. -/
  | undecodable
  | text (content : String)
deriving DecidableEq

/-- Read a file. Each way to end a line becomes a line feed. -/
def FileTree.read (t : FileTree) (p : Path) : Input :=
  match t.at? p with
  | none => .missing
  | some .directory => .directory
  | some (.file none) => .undecodable
  | some (.file (some content)) => .text (String.ofList (Text.unifyLineFeeds content.toList))

end NoteScript.Command
