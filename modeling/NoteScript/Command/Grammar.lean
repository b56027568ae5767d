import NoteScript.Text.Edit
import NoteScript.Text.Numeral
import NoteScript.Text.Quoted

/-!
# Switches and operands

The arguments of a command are switches and operands. A switch may be cut short as long as it stays
unique, its value follows as the next argument or behind an equals sign, and after `--` everything is an
operand. A negative number and an argument with a blank in it are operands too. Two dashes are never a
value: a switch that gets them has none.

`classify` says what an argument is; `readArguments` takes a command's arguments from left to right. It
stops at the first thing that is wrong, or at a request for help.
-/

namespace NoteScript.Command

/-- A switch: its spellings, whether it takes a value, and the values it takes if they are fixed. -/
structure Switch where
  spellings : List String
  takesValue : Bool := false
  choices : List String := []
deriving DecidableEq

namespace Switch

/-- The name of a switch in messages. -/
def name (s : Switch) : String := String.intercalate "/" s.spellings

/-- The switch that asks for help. -/
def help : Switch := { spellings := ["-h", "--help"] }

end Switch

/-- What an argument is. -/
inductive Word where
  | operand (text : String)
  /-- The mark after which there are no more switches. -/
  | separator
  /-- A switch, and what stands behind it in the same argument. -/
  | switch (s : Switch) (spelling : String) (attached : Option (List Char))
  /-- It looks like a switch, but there is none of that name. -/
  | unknown (text : String)
deriving DecidableEq

/-- The text between quotes, one after the other. -/
def quotedList (choices : List String) : String := String.intercalate ", " (choices.map Text.quoted)

/-! ### What an argument is -/

/-- The beginning of an argument up to an equals sign, and what follows the sign. -/
def splitEquals (arg : List Char) : List Char × Option (List Char) :=
  let start := arg.takeWhile (· != '=')
  (start, if start.length < arg.length then some (arg.drop (start.length + 1)) else none)

/-- All spellings of the switches, in order. -/
def spellings (switches : List Switch) : List (String × Switch) :=
  switches.flatMap fun s => s.spellings.map (·, s)

/-- The switches that an argument with two dashes may be short for. -/
def longCandidates (switches : List Switch) (arg : List Char) :
    List (String × Switch × Option (List Char)) :=
  let (start, value) := splitEquals arg
  ((spellings switches).filter fun (spelling, _) => start.isPrefixOf spelling.toList).map
    fun (spelling, s) => (spelling, s, value)

/-- The switches that an argument with one dash may stand for: a switch of one letter with something
behind it. -/
def shortCandidates (switches : List Switch) (arg : List Char) :
    List (String × Switch × Option (List Char)) :=
  (spellings switches).filterMap fun (spelling, s) =>
    if spelling.toList == arg.take 2 then some (spelling, s, some (arg.drop 2))
    else if arg.isPrefixOf spelling.toList then some (spelling, s, none)
    else none

/-- A negative number, with one line feed behind it at most. -/
def isNegativeNumber (arg : List Char) : Bool :=
  match arg with
  | '-' :: rest =>
    let body := if rest.getLast? == some '\n' then rest.dropLast else rest
    let behind := body.dropWhile Text.isDecimal
    let digits := behind.tail
    (!body.isEmpty && behind.isEmpty)
      || (behind.head? == some '.' && !digits.isEmpty && digits.all Text.isDecimal)
  | _ => false

/-- What an argument with a dash in front is, if it is no switch in full. -/
def classifyDashed (switches : List Switch) (arg : String) : Except String Word :=
  let cs := arg.toList
  let candidates :=
    if ['-', '-'].isPrefixOf cs then longCandidates switches cs else shortCandidates switches cs
  match candidates with
  | [(spelling, s, attached)] => .ok (.switch s spelling attached)
  | [] => .ok (if isNegativeNumber cs || cs.contains ' ' then .operand arg else .unknown arg)
  | several =>
    .error ("ambiguous option: " ++ arg ++ " could match " ++ String.intercalate ", " (several.map (·.1)))

/-- What an argument in front of the separator is. -/
def classify (switches : List Switch) (arg : String) : Except String Word :=
  let known (text : String) : Option Switch := ((spellings switches).find? (·.1 == text)).map (·.2)
  if !Text.beginsWith "-" arg then .ok (.operand arg)
  else
    match known arg with
    | some s => .ok (.switch s arg none)
    | none =>
      let (start, value) := splitEquals arg.toList
      match value, known (String.ofList start) with
      | some value, some s => .ok (.switch s (String.ofList start) (some value))
      | _, _ => if arg.length == 1 then .ok (.operand arg) else classifyDashed switches arg

/-- What the arguments of a command are. -/
def classifyAll (switches : List Switch) : List String → Except String (List Word)
  | [] => .ok []
  | arg :: rest =>
    if arg == "--" then .ok (.separator :: rest.map .operand)
    else do
      let word ← classify switches arg
      return word :: (← classifyAll switches rest)

/-! ### Reading the arguments -/

/-- Why the reading of the arguments stops. -/
inductive Stop where
  | help
  | error (message : String)
deriving DecidableEq

/-- A switch that was given, with its value. -/
structure Setting where
  switch : Switch
  value : Option String
deriving DecidableEq

/-- What was read so far: settings in order, the operand, and the arguments that nothing takes. -/
structure Reading where
  settings : List Setting := []
  operand : Option String := none
  extras : List String := []

namespace Reading

/-- Was a switch given? -/
def has (r : Reading) (s : Switch) : Bool := r.settings.any (·.switch == s)

/-- The value given to a switch last. -/
def value? (r : Reading) (s : Switch) : Option String :=
  (r.settings.reverse.find? (·.switch == s)).bind (·.value)

end Reading

/-- The error of a switch. -/
def switchError (s : Switch) (message : String) : Stop :=
  .error ("argument " ++ s.name ++ ": " ++ message)

/-- The error of a value that a switch has no use for. -/
def ignoredValue (s : Switch) (value : List Char) : Stop :=
  switchError s ("ignored explicit argument " ++ Text.quoted (String.ofList value))

/-- A switch with the value behind it in the same argument; two dashes are no value. -/
def Setting.ofAttached (s : Switch) (value : List Char) : Setting :=
  ⟨s, if value == ['-', '-'] then none else some (String.ofList value)⟩

/-- Switches of one letter in one argument, given what stands behind the first one: each letter is a
switch again, or the value of the switch in front of it. -/
def readCluster (switches : List Switch) (s : Switch) : List Char → Except Stop (List Setting)
  | [] => .ok [⟨s, none⟩]
  | c :: rest =>
    if s.takesValue then .ok [.ofAttached s (c :: rest)]
    else
      match (spellings switches).find? (·.1 == String.ofList ['-', c]) with
      | none => .error (ignoredValue s (c :: rest))
      | some (_, inner) => do
        return ⟨s, none⟩ :: (← readCluster switches inner rest)

/-- The settings that a switch makes with what stands behind it in the same argument. -/
def readAttached (switches : List Switch) (s : Switch) (spelling : String) (attached : List Char) :
    Except Stop (List Setting) :=
  if s.takesValue then .ok [.ofAttached s attached]
  else if Text.beginsWith "--" spelling || attached.isEmpty then .error (ignoredValue s attached)
  else readCluster switches s attached

/-- Take settings over. A request for help stops the reading, and so does a value that is not among the
choices. -/
def takeSettings (r : Reading) : List Setting → Except Stop Reading
  | [] => .ok r
  | setting :: rest =>
    let s := setting.switch
    if s == .help then .error .help
    else
      match setting.value with
      | some value =>
        if s.choices.isEmpty || s.choices.contains value then
          takeSettings { r with settings := r.settings ++ [setting] } rest
        else
          .error (switchError s
            ("invalid choice: " ++ Text.quoted value ++ " (choose from " ++ quotedList s.choices ++ ")"))
      | none => takeSettings { r with settings := r.settings ++ [setting] } rest

/-- Read the arguments of a command that has one operand. -/
def readWords (switches : List Switch) (r : Reading) : List Word → Except Stop Reading
  | [] => .ok r
  | .switch s spelling (some attached) :: rest => do
    readWords switches (← takeSettings r (← readAttached switches s spelling attached)) rest
  | .switch s _ none :: rest =>
    if s.takesValue then
      match rest with
      | .operand value :: rest => do
        readWords switches (← takeSettings r [⟨s, some value⟩]) rest
      | _ => .error (switchError s "expected one argument")
    else do
      readWords switches (← takeSettings r [⟨s, none⟩]) rest
  | .unknown text :: rest => readWords switches { r with extras := r.extras ++ [text] } rest
  | .operand text :: rest =>
    match r.operand, rest with
    | none, .separator :: rest => readWords switches { r with operand := some text } rest
    | none, rest => readWords switches { r with operand := some text } rest
    | some _, rest => readWords switches { r with extras := r.extras ++ [text] } rest
  | .separator :: rest =>
    match r.operand, rest with
    | none, .operand text :: rest => readWords switches { r with operand := some text } rest
    | _, rest => readWords switches { r with extras := r.extras ++ ["--"] } rest

end NoteScript.Command
