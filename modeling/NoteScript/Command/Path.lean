import NoteScript.Text.Edit

/-!
# Paths

A path is a list of parts behind the slashes it starts with. Empty parts and `.` say nothing and are
dropped; `..` stays, because what it means is up to the files. `Path.resolve` takes it as a step back.
-/

namespace NoteScript.Command

/-- A path: how many slashes it starts with, and its parts. -/
structure Path where
  slashes : Nat := 0
  parts : List String := []
deriving DecidableEq

namespace Path

/-- Cut a text at the slashes; `part` is the part before, last character first. -/
def cut (part : List Char) : List Char → List String
  | [] => [String.ofList part.reverse]
  | '/' :: rest => String.ofList part.reverse :: cut [] rest
  | c :: rest => cut (c :: part) rest

/-- Read a path. One slash in front or more than two make it start at the root; two slashes are
kept. -/
def ofText (text : String) : Path :=
  let cs := text.toList
  let slashes := (cs.takeWhile (· == '/')).length
  { slashes := if slashes ≤ 2 then slashes else 1
    parts := (cut [] cs).filter fun part => !part.isEmpty && part != "." }

/-- Does the path start at the root? -/
def isAbsolute (p : Path) : Bool := p.slashes != 0

/-- The text of a path; a path without parts is the place where it starts. -/
def text (p : Path) : String :=
  if p.parts.isEmpty && !p.isAbsolute then "."
  else Text.copies p.slashes "/" ++ String.intercalate "/" p.parts

/-- The last part. -/
def name (p : Path) : String := p.parts.getLast?.getD ""

/-- The path without its last part. -/
def parent (p : Path) : Path := { p with parts := p.parts.dropLast }

/-- Take one part as a step: `..` goes back, at the root it stays. -/
def step (place : List String) (part : String) : List String :=
  if part == ".." then place.dropLast else place ++ [part]

/-- The path from the root, seen from the place `start`. -/
def resolve (start : List String) (p : Path) : Path :=
  { slashes := 1, parts := p.parts.foldl step (if p.isAbsolute then [] else start) }

/-- A name without its suffix: from the last full stop on, unless that is the first or the last
character. -/
def stem (name : String) : String :=
  let cs := name.toList
  let suffix := (cs.reverse.takeWhile (· != '.')).length
  if 0 < suffix && suffix + 1 < cs.length then String.ofList (cs.take (cs.length - suffix - 1)) else name

/-- The path with another suffix. -/
def withSuffix (suffix : String) (p : Path) : Path :=
  { p with parts := p.parts.dropLast ++ [stem p.name ++ suffix] }

end Path

end NoteScript.Command
