import NoteScript.Chunk
import NoteScript.Command.FileTree
import NoteScript.Command.Usage
import NoteScript.Note
import NoteScript.Transpile
import NoteScript.Tree.Check

/-!
# What a command does

A command reads one input, and what it does then is a `Plan`: lines for the error stream, one file to
write at most, a text for the output stream, and the exit status. The plan is made before anything is
written, so a script without a chunk leaves the files alone.

- `ConvertRequest.plan`: check the script if asked to, transpile it, write the chunk.
- `NoteRequest.plan`: transpile each query of the note, and write or print what comes out.
-/

namespace NoteScript.Command

/-- Why a command breaks off without an exit status. -/
inductive Crash where
  /-- The bytes of the input are no text. -/
  | undecodable
  /-- A strict check was stopped by the parser's error. -/
  | parser (error : SyntaxFault)
  /-- The output path is refused. -/
  | path (fault : PathFault)

/-- A file to write. -/
structure FileWrite where
  path : Path
  /-- Make the directories it is in first. -/
  withParents : Bool
  content : String
deriving DecidableEq

/-- What a command does: lines for the error stream before and after the file is written, the file,
the text for the output stream, and the exit status. -/
structure Plan where
  before : List String := []
  write : Option FileWrite := none
  after : List String := []
  stdout : String := ""
  result : Except Crash Nat

namespace Plan

/-- Write some lines to the error stream and fail. -/
def fail (lines : List String) : Plan := { before := lines, result := .ok 1 }

/-- Break off. -/
def crash (c : Crash) : Plan := { result := .error c }

/-- What is done about an input, given what is done about its text. -/
def ofInput (path : Path) (input : Input) (ofText : String → Plan) : Plan :=
  match input with
  | .missing => fail ["ERROR: Input file not found: " ++ path.text]
  | .directory =>
    fail ["ERROR: Failed to read " ++ path.text ++ ": [Errno 21] Is a directory: " ++ Text.quoted path.text]
  | .undecodable => crash .undecodable
  | .text source => ofText source

end Plan

/-! ### Lines of a report -/

/-- A place behind the name of a file. -/
def placeText (line column : Tree) : String :=
  match line, column with
  | .null, _ => ""
  | line, .null => ":" ++ line.display
  | line, column => ":" ++ line.display ++ ":" ++ column.display

/-- The report of a check: syntax errors, then issues. -/
def checkLines (name : String) (c : Checked) : List String :=
  c.errors.map (fun e => "ERROR " ++ name ++ placeText e.line e.column ++ ": " ++ e.description.display)
    ++ (c.issues.getD []).map fun i =>
      "WARNING " ++ name ++ placeText i.position.line i.position.column ++ ": " ++ i.message

/-- The report of a script: its diagnostics. -/
def scriptLines (name : String) (t : Transpiled) : List String :=
  t.diagnostics.map fun d => "INFO " ++ name ++ ": " ++ d

/-- The log of a script: its diagnostics, then the passes over the text. -/
def logLines (verbose : Bool) (t : Transpiled) : List String :=
  if verbose then
    t.diagnostics.map ("DEBUG transformer.expressions: soft failure: " ++ ·)
      ++ match t.outcome with
        | .ok _ => Pass.all.map fun p => "DEBUG emitter.post_processor: post-process pass " ++ p.logName ++ " done"
        | .error .invalidInput => []
        | .error _ => ["DEBUG transformer.core: transpile failed"]
  else []

/-- A line of the log of a command. -/
def debugLine (verbose : Bool) (message : String) : List String :=
  if verbose then ["DEBUG cli: " ++ message] else []

/-- A file name given on the command line; an empty one is none. -/
def givenName? (out : Option String) : Option String := out.filter (!·.isEmpty)

/-! ### Converting a script -/

namespace ConvertRequest

/-- The check of a script, if there is one. -/
def checked (r : ConvertRequest) (outcome : ParseOutcome) : Except SyntaxFault (Option Checked) :=
  if r.check then some <$> Checked.ofOutcome outcome (!r.strict) true else .ok none

/-- The lines for a check that has no tree. -/
def noTreeLines (c : Checked) : List String :=
  "ERROR: Parsing failed; no AST produced."
    :: c.errors.map fun e => "  " ++ e.description.display ++ placeText e.line e.column

/-- The chunk that is written. -/
def chunk (r : ConvertRequest) (path : Path) (code : String) : Chunk :=
  Chunk.assemble code {
    heading := if r.header then some ("Generated by js2lua from " ++ path.name) else none
    withPreface := r.withPreface }

/-- The file that is written. -/
def target (r : ConvertRequest) (path : Path) : Path :=
  match givenName? r.out with
  | some name => Path.ofText name
  | none => path.withSuffix ".lua"

/-- Does the run count as failed although the file is written? It does if there are syntax errors, and
in a strict run if there is anything to report. -/
def hasErrors (r : ConvertRequest) (check : Option Checked) (t : Transpiled) : Bool :=
  check.any (!·.errors.isEmpty)
    || (r.strict && (check.any (!·.diagnostics.isEmpty) || !t.diagnostics.isEmpty))

/-- What is done about a script once it is checked. -/
def planScript (r : ConvertRequest) (verbose : Bool) (path : Path) (source : String)
    (check : Option Checked) : Plan :=
  let t := transpile source
  match t.outcome with
  | .error failure => .fail (logLines verbose t ++ ["ERROR " ++ path.text ++ ": " ++ failure.message])
  | .ok code =>
    { before := logLines verbose t
      write := some ⟨r.target path, true, (r.chunk path code).source⟩
      after := debugLine verbose ("wrote " ++ (r.target path).text)
        ++ (check.map (checkLines path.text)).getD [] ++ scriptLines path.text t
      result := .ok (if r.hasErrors check t then 1 else 0) }

/-- What is done about a script. -/
def plan (r : ConvertRequest) (verbose : Bool) (path : Path) (input : Input)
    (parse : String → ParseOutcome) : Plan :=
  Plan.ofInput path input fun source =>
    match r.checked (parse source) with
    | .error error => .crash (.parser error)
    | .ok none => r.planScript verbose path source none
    | .ok (some c) =>
      if c.tree.isNone then .fail (noTreeLines c) else r.planScript verbose path source (some c)

end ConvertRequest

/-! ### Converting a note -/

/-- What comes of a query: lines for the error stream, the Lua code under its heading, and whether it
counts as failed. -/
structure QueryReport where
  lines : List String
  chunk : Option String
  failed : Bool
deriving DecidableEq

/-- What comes of a query. The diagnostics of an inline expression are not reported, and it never fails:
it stands as it is if it has no Lua code. -/
def QueryReport.ofQuery (strict verbose : Bool) (path : Path) (q : QueryBlock) : QueryReport :=
  let t := transpile q.source
  match q.kind, t.outcome with
  | .inline, _ =>
    ⟨logLines verbose t,
      some ("-- inline expression at line " ++ toString q.line ++ "\n" ++ transpileInline q.source), false⟩
  | .block, .error failure =>
    ⟨logLines verbose t ++ ["ERROR " ++ path.text ++ ":" ++ toString q.line ++ ": " ++ failure.message],
      none, true⟩
  | .block, .ok code =>
    ⟨logLines verbose t ++ scriptLines (path.text ++ ":" ++ toString q.line) t,
      some ("-- dataviewjs block at line " ++ toString q.line ++ "\n" ++ code),
      strict && !t.diagnostics.isEmpty⟩

/-- Chunks in one text, with an empty line between them. -/
def joinChunks (chunks : List String) : String :=
  String.intercalate "\n\n" chunks ++ (if chunks.isEmpty then "" else "\n")

namespace NoteRequest

/-- What is done about the text of a note. -/
def planNote (r : NoteRequest) (verbose : Bool) (path : Path) (markdown : String) : Plan :=
  let reports := (Note.queries markdown).map (QueryReport.ofQuery r.strict verbose path)
  let chunks := reports.filterMap (·.chunk)
  let lines := reports.flatMap (·.lines)
    ++ debugLine verbose ("found " ++ toString chunks.length ++ " query blocks in " ++ path.text)
  let result := .ok (if reports.any (·.failed) then 1 else 0)
  match givenName? r.out with
  | some name => { before := lines, write := some ⟨Path.ofText name, false, joinChunks chunks⟩, result }
  | none => { before := lines, stdout := joinChunks chunks, result }

/-- What is done about a note. -/
def plan (r : NoteRequest) (verbose : Bool) (path : Path) (input : Input) : Plan :=
  Plan.ofInput path input (r.planNote verbose path)

end NoteRequest

namespace Request

/-- The input of a request. -/
def input : Request → Path
  | .convert r => Path.ofText r.input
  | .note r => Path.ofText r.note

/-- What is done about a request, given its input. -/
def plan (verbose : Bool) (path : Path) (input : Input) (parse : String → ParseOutcome) : Request → Plan
  | .convert r => r.plan verbose path input parse
  | .note r => r.plan verbose path input

end Request

end NoteScript.Command
