import NoteScript.Command.Plan

/-!
# The command line

Reads the arguments and the input file, and carries out the plan that `NoteScript.Command` makes of
them. There is no JavaScript parser in this program, so a check finds no tree.
-/

namespace NoteScript.Terminal

open NoteScript.Command

/-- The outcome of a parser that is not there. -/
def noParser (_source : String) : ParseOutcome :=
  .stopped ⟨"no JavaScript parser is available", .null, .null, .null⟩

/-- Read a file. -/
def readInput (path : Path) : IO Input := do
  let file := (← IO.currentDir) / path.text
  if ← file.isDir then return .directory
  if !(← file.pathExists) then return .missing
  match String.fromUTF8? (← IO.FS.readBinFile file) with
  | some content => return .text (String.ofList (Text.unifyLineFeeds content.toList))
  | none => return .undecodable

/-- Write a file. -/
def writeOutput (w : FileWrite) : IO Unit := do
  let here ← IO.currentDir
  if w.withParents then IO.FS.createDirAll (here / w.path.parent.text)
  IO.FS.writeFile (here / w.path.text) w.content

/-- Why a run broke off. -/
def crashMessage : Crash → String
  | .undecodable => "the input is not UTF-8 text"
  | .parser error => error.message
  | .path _ => "the output path is refused"

/-- Carry a plan out. -/
def carryOut (p : Plan) : IO UInt32 := do
  IO.eprint (ofLines p.before)
  match p.write with
  | some w => writeOutput w
  | none => pure ()
  IO.eprint (ofLines p.after)
  IO.print p.stdout
  match p.result with
  | .ok status => return status.toUInt32
  | .error crash =>
    IO.eprintln (crashMessage crash)
    return 1

end NoteScript.Terminal

open NoteScript.Command in
/-- Run the program. -/
def main (args : List String) : IO UInt32 := do
  match Call.ofArguments args with
  | .help text =>
    IO.print text
    return 0
  | .nothing =>
    IO.print mainHelp
    return 1
  | .refused message =>
    IO.eprint message
    return 2
  | .request verbose r =>
    let here := Path.ofText (← IO.currentDir).toString
    let path := r.input.resolve here.parts
    NoteScript.Terminal.carryOut
      (r.plan verbose path (← NoteScript.Terminal.readInput path) NoteScript.Terminal.noParser)
