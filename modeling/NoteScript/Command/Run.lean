import NoteScript.Command.Plan

/-!
# Running the program on a tree of files

`run` reads the arguments, makes the plan and carries it out: its outcome holds the exit status, both
output streams and the files afterwards.
-/

namespace NoteScript.Command

/-- What a run leaves behind: the exit status, or why it broke off, both streams, and the files. -/
structure Outcome where
  result : Except Crash Nat
  stdout : String
  stderr : String
  files : FileTree

/-- Write a file, with the directories it is in if they are asked for. -/
def FileWrite.perform (w : FileWrite) (files : FileTree) : Except PathFault Unit × FileTree :=
  match if w.withParents then files.ensureDirectories w.path.parent else (.ok (), files) with
  | (.ok (), ready) => ready.attempt (·.write w.path w.content)
  | refused => refused

/-- Carry a plan out. -/
def Plan.carryOut (p : Plan) (files : FileTree) : Outcome :=
  match p.write with
  | none => ⟨p.result, p.stdout, ofLines (p.before ++ p.after), files⟩
  | some w =>
    match w.perform files with
    | (.ok (), written) => ⟨p.result, p.stdout, ofLines (p.before ++ p.after), written⟩
    | (.error fault, left) => ⟨.error (.path fault), "", ofLines p.before, left⟩

/-- Do what is asked. -/
def Request.run (r : Request) (verbose : Bool) (files : FileTree) (parse : String → ParseOutcome) : Outcome :=
  let path := r.input.resolve files.start
  (r.plan verbose path (files.read path) parse).carryOut files

/-- Run the program. -/
def run (args : List String) (files : FileTree) (parse : String → ParseOutcome) : Outcome :=
  match Call.ofArguments args with
  | .request verbose r => r.run verbose files parse
  | .help text => ⟨.ok 0, text, "", files⟩
  | .nothing => ⟨.ok 1, mainHelp, "", files⟩
  | .refused message => ⟨.ok 2, "", message, files⟩

end NoteScript.Command
