import NoteScript.Command.Grammar

/-!
# The commands and how they are called

The program has the commands `convert` and `note`. This module holds their switches and usage texts, and
`Call.ofArguments`, which makes a request out of the arguments or says why there is none.
-/

namespace NoteScript.Command

/-! ### Requests -/

/-- A request to convert a script file. -/
structure ConvertRequest where
  input : String
  out : Option String
  withPreface : Bool
  strict : Bool
  check : Bool
  header : Bool
deriving DecidableEq

/-- A request to convert the queries of a note. -/
structure NoteRequest where
  note : String
  out : Option String
  strict : Bool
deriving DecidableEq

/-- What the program is asked to do. -/
inductive Request where
  | convert (r : ConvertRequest)
  | note (r : NoteRequest)
deriving DecidableEq

/-- What the arguments say. -/
inductive Call where
  /-- Do what is asked, with a log or without. -/
  | request (verbose : Bool) (r : Request)
  /-- Show a help text. -/
  | help (text : String)
  /-- There is no command. -/
  | nothing
  /-- The arguments are wrong. -/
  | refused (message : String)
deriving DecidableEq

/-! ### Switches -/

namespace Switch

/-- Turns the log on. -/
def verbose : Switch := { spellings := ["--verbose"] }

/-- Names the file to write. -/
def out : Switch := { spellings := ["--out"], takesValue := true }

/-- Says whether the preface is written. -/
def runtime : Switch :=
  { spellings := ["--runtime"], takesValue := true, choices := ["include", "skip"] }

/-- Takes diagnostics for errors. -/
def strict : Switch := { spellings := ["--strict"] }

/-- Asks for a check before the conversion. -/
def check : Switch := { spellings := ["--check"] }

/-- Asks for a heading with the name of the script. -/
def header : Switch := { spellings := ["--header"] }

end Switch

/-- The two commands. -/
inductive CommandName where
  | convert
  | note
deriving DecidableEq

namespace CommandName

/-- The word for a command. -/
def word : CommandName → String
  | .convert => "convert"
  | .note => "note"

/-- The commands in the order of the help text. -/
def all : List CommandName := [.convert, .note]

/-- The command that a word stands for. -/
def ofWord? (word : String) : Option CommandName := all.find? (·.word == word)

/-- The switches of a command. -/
def switches : CommandName → List Switch
  | .convert => [.help, .out, .runtime, .strict, .check, .header]
  | .note => [.help, .out, .strict]

/-- The name of the operand of a command. -/
def operandName : CommandName → String
  | .convert => "input"
  | .note => "note"

end CommandName

/-- The switches in front of the command. -/
def mainSwitches : List Switch := [.help, .verbose]

/-! ### Texts -/

/-- The name of the program. -/
def programName : String := "js2lua"

/-- Lines as a text. -/
def ofLines (lines : List String) : String := String.join (lines.map (· ++ "\n"))

/-- How the program is called. -/
def mainUsage : List String := ["usage: js2lua [-h] [--verbose] \x7bconvert,note\x7d ..."]

/-- The help text of the program. -/
def mainHelp : String :=
  ofLines (mainUsage ++
    ["",
     "Convert dataviewjs JavaScript to Lua",
     "",
     "positional arguments:",
     "  \x7bconvert,note\x7d",
     "    convert       Convert a single JS file to Lua",
     "    note          Transpile every query block of a Markdown note",
     "",
     "options:",
     "  -h, --help      show this help message and exit",
     "  --verbose       Enable debug logging."])

namespace CommandName

/-- How a command is called. -/
def usage : CommandName → List String
  | .convert =>
    ["usage: js2lua convert [-h] [--out OUT] [--runtime \x7binclude,skip\x7d] [--strict]",
     "                      [--check] [--header]",
     "                      input"]
  | .note => ["usage: js2lua note [-h] [--out OUT] [--strict] note"]

/-- What a command takes. -/
def details : CommandName → List String
  | .convert =>
    ["positional arguments:",
     "  input                 Path to the JavaScript file",
     "",
     "options:",
     "  -h, --help            show this help message and exit",
     "  --out OUT             Output Lua file path (defaults to same directory with",
     "                        .lua extension)",
     "  --runtime \x7binclude,skip\x7d",
     "                        Prepend the string.split/slice runtime prelude",
     "  --strict              Treat warnings as errors and disable tolerant parsing.",
     "  --check               Parse the input with esprima first and report",
     "                        unsupported constructs.",
     "  --header              Start the output with a comment naming the source",
     "                        file."]
  | .note =>
    ["positional arguments:",
     "  note        Path to the Markdown note",
     "",
     "options:",
     "  -h, --help  show this help message and exit",
     "  --out OUT   Write the Lua chunks to a file instead of stdout",
     "  --strict    Exit non-zero when any block produced diagnostics."]

/-- The help text of a command. -/
def helpText (c : CommandName) : String := ofLines (c.usage ++ [""] ++ c.details)

/-- The name of a command in an error. -/
def fullName (c : CommandName) : String := programName ++ " " ++ c.word

end CommandName

/-- An error in the arguments, under the usage text of the program or of a command. -/
def usageError (usage : List String) (name message : String) : String :=
  ofLines (usage ++ [name ++ ": error: " ++ message])

/-- The call that a stop in front of the command leads to. -/
def Stop.mainCall : Stop → Call
  | .help => .help mainHelp
  | .error message => .refused (usageError mainUsage programName message)

/-- The call that a stop behind a command leads to. -/
def Stop.commandCall (c : CommandName) : Stop → Call
  | .help => .help c.helpText
  | .error message => .refused (usageError c.usage c.fullName message)

/-! ### From arguments to a request -/

/-- The request of a command, given its operand. -/
def CommandName.request (c : CommandName) (r : Reading) (operand : String) : Request :=
  match c with
  | .convert =>
    .convert {
      input := operand
      out := r.value? .out
      withPreface := r.value? .runtime == some "include"
      strict := r.has .strict
      check := r.has .check
      header := r.has .header }
  | .note => .note { note := operand, out := r.value? .out, strict := r.has .strict }

/-- Finish a call: arguments that nothing takes are an error. -/
def finishCall (extras : List String) (call : Call) : Call :=
  if extras.isEmpty then call
  else Stop.mainCall (.error ("unrecognized arguments: " ++ String.intercalate " " extras))

/-- The call of a command, given what stands behind it. -/
def CommandName.call (c : CommandName) (before : Reading) (args : List String) : Call :=
  match classifyAll c.switches args with
  | .error message => Stop.commandCall c (.error message)
  | .ok words =>
    match readWords c.switches {} words with
    | .error stop => stop.commandCall c
    | .ok r =>
      match r.operand with
      | none => Stop.commandCall c (.error ("the following arguments are required: " ++ c.operandName))
      | some operand =>
        finishCall (before.extras ++ r.extras) (.request (before.has .verbose) (c.request r operand))

/-- The call of a word in the place of the command. -/
def wordCall (r : Reading) (word : String) (args : List String) : Call :=
  match CommandName.ofWord? word with
  | some c => c.call r args
  | none =>
    Stop.mainCall (.error ("argument command: invalid choice: " ++ Text.quoted word
      ++ " (choose from " ++ quotedList (CommandName.all.map (·.word)) ++ ")"))

/-- Read the switches in front of the command; each argument comes with what it is. -/
def readMain (r : Reading) : List (String × Word) → Call
  | [] => finishCall r.extras .nothing
  | (_, .operand word) :: rest => wordCall r word (rest.map (·.1))
  | (_, .separator) :: rest =>
    if rest.isEmpty then finishCall (r.extras ++ ["--"]) .nothing else wordCall r "--" []
  | (_, .unknown text) :: rest => readMain { r with extras := r.extras ++ [text] } rest
  | (_, .switch s spelling attached) :: rest =>
    let result : Except Stop Reading := do
      let settings ←
        match attached with
        | some attached => readAttached mainSwitches s spelling attached
        | none => .ok [⟨s, none⟩]
      takeSettings r settings
    match result with
    | .ok r => readMain r rest
    | .error stop => stop.mainCall

/-- What the arguments of the program ask for. -/
def Call.ofArguments (args : List String) : Call :=
  match classifyAll mainSwitches args with
  | .error message => Stop.mainCall (.error message)
  | .ok words => readMain {} (args.zip words)

end NoteScript.Command
