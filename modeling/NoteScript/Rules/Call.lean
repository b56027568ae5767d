import NoteScript.Idiom
import NoteScript.Method
import NoteScript.Pattern
import NoteScript.Rules.Operator
import NoteScript.Token.Group

/-!
# Method calls

The Lua form of a call of each `Method`. Every rule starts with the cursor at the opening bracket of the
arguments and with the receiver written last.
-/

namespace NoteScript.Rules

open Edit

/-! ### Regular expressions -/

/-- The Lua form of a regular expression literal. One that has no Lua pattern becomes an empty string
with a comment, and a diagnostic. -/
def regexLiteral (literal : String) : Edit String := do
  match (Pattern.ofRegex literal).lua with
  | some pattern => return Literal.quote pattern
  | none =>
    warn ("regex " ++ literal ++ " has no Lua pattern equivalent")
    return "\"\" --[[ REGEX NOT CONVERTED: " ++ Literal.inBlockComment literal ++ " ]]"

/-! ### Receivers -/

/-- A receiver that a method can be called on. -/
def asReceiver (expression : String) : String :=
  if Text.isSimpleReceiver expression || Text.endsWith ")" expression || Text.endsWith "]" expression then
    expression
  else "(" ++ expression ++ ")"

/-- Take back the receiver. -/
def receiver : Edit String := takeOperand true

/-- Take the arguments of a call as one value. -/
def argument (r : Rules) : Edit String := do
  r.value (← arguments)

/-! ### Lists and maps -/

/-- The values of several token lists, one after the other. -/
def valueList (r : Rules) : List (List Token) → Edit (List String)
  | [] => pure []
  | tokens :: rest => do
    let value ← r.value tokens
    return value :: (← r.valueList rest)

/-- `xs.push(a, b)` inserts the values one by one; without arguments it inserts `nil`. -/
def callPush (r : Rules) : Edit Unit := do
  let list ← receiver
  let groups := (Token.splitOn "," (← arguments)).filter Token.hasContent
  let found ← r.valueList groups
  let values := if found.isEmpty then ["nil"] else found
  emit (String.intercalate "; " (values.map fun value => "table.insert(" ++ list ++ ", " ++ value ++ ")"))

/-- `m.has(k)` and `m.get(k)` look the key up. -/
def callLookup (r : Rules) : Edit Unit := do
  emit ("[" ++ (← r.argument) ++ "]")

/-- `m.set(k, v)` assigns. -/
def callSet (r : Rules) : Edit Unit := do
  let (keyTokens, valueTokens) := Token.splitFirst (← arguments)
  let key ← r.value keyTokens
  let value ← r.value valueTokens
  emit ("[" ++ key ++ "] = " ++ value)

/-- Is the name written last a variable that holds a map? -/
def afterMapName : Edit Bool := do
  let d ← get
  return d.mapNames.contains d.out.lastWritten

/-- `m.delete(k)` assigns `nil`, if `m` is known to be a map. -/
def callDelete (r : Rules) : Edit Unit := do
  if ← afterMapName then emit ("[" ++ (← r.argument) ++ "] = nil")
  else emit ".delete"

/-- Take a call `.sort()` that follows, if there is one. -/
def takePlainSort : Edit Bool := do
  match (← cursor).plainSort? with
  | some size =>
    skip size
    return true
  | none => return false

/-- `m.keys()` makes the table of the keys, sorted if `.sort()` follows. -/
def callKeys : Edit Unit := do
  let _ ← arguments
  let map ← receiver
  let sorted ← takePlainSort
  emit (Idiom.keys map sorted)

/-! ### Strings -/

/-- The replacement of a call: in a string literal the marks of groups are spelled as in Lua. -/
def replacement (r : Rules) (tokens : List Token) : Edit String := do
  match Token.significant tokens with
  | [t] =>
    if t.isString then
      return "\"" ++ Literal.replacementBody (Text.inner (Literal.ofString t.text)) ++ "\""
    else r.value tokens
  | _ => r.value tokens

/-- `s.replace(a, b)` replaces the first match unless the pattern asks for all; `s.replaceAll(a, b)`
replaces all. A string stands for itself. -/
def callReplace (r : Rules) (all : Bool) : Edit Unit := do
  let (patternTokens, replacementTokens) := Token.splitFirst (← arguments)
  let new ← r.replacement replacementTokens
  let call (pattern : String) (once : Bool) : Edit Unit :=
    emit (":gsub(" ++ pattern ++ ", " ++ new ++ (if once then ", 1" else "") ++ ")")
  match Token.significant patternTokens with
  | [t] =>
    if t.kind == .regex then
      let pattern := Pattern.ofRegex t.text
      call (← regexLiteral t.text) (pattern.lua.isSome && !(pattern.isGlobal || all))
    else if t.isString then
      call ("\"" ++ Pattern.escape (Text.inner (Literal.ofString t.text)) ++ "\"") !all
    else call (← r.value patternTokens) false
  | _ => call (← r.value patternTokens) false

/-- `xs.join(s)` concatenates, by default with a comma. -/
def callJoin (r : Rules) : Edit Unit := do
  let given ← r.argument
  let separator := if given.isEmpty then "\",\"" else given
  let list ← receiver
  emit ("table.concat(" ++ list ++ ", " ++ separator ++ ")")

/-- `s.includes(t)` looks for a plain text. -/
def callIncludes (r : Rules) : Edit Unit := do
  let part ← r.argument
  let text := asReceiver (← receiver)
  emit ("(" ++ text ++ ":find(" ++ part ++ ", 1, true) ~= nil)")

/-- `s.startsWith(t)` compares the beginning. -/
def callStartsWith (r : Rules) : Edit Unit := do
  let part ← r.argument
  let text := asReceiver (← receiver)
  emit ("(" ++ text ++ ":sub(1, #(" ++ part ++ ")) == " ++ part ++ ")")

/-- `s.endsWith(t)` compares the ending. -/
def callEndsWith (r : Rules) : Edit Unit := do
  let part ← r.argument
  let text := asReceiver (← receiver)
  emit ("(" ++ text ++ ":sub(-#(" ++ part ++ ")) == " ++ part ++ ")")

/-- A method without arguments in Lua; those of the script are dropped. -/
def callPlain (lua : String) : Edit Unit := do
  let _ ← arguments
  emit lua

/-- `x.toString()`; the arguments are dropped. -/
def callToString : Edit Unit := do
  let _ ← arguments
  emit ("tostring(" ++ (← receiver) ++ ")")

/-! ### Sorting -/

/-- The order argument of a sort: a comparison function returns a number, and Lua asks for the sign of
it. `none` if the comparator is no function. -/
def sortOrder? (comparator : String) : Option String :=
  match Idiom.Comparator.ofText? comparator with
  | some c => some (", function(" ++ c.params ++ ") return (" ++ c.body ++ ") < 0 end")
  | none =>
    if Text.beginsWith "function" comparator || Text.isSimpleReceiver comparator then
      some (", function(a, b) return (" ++ comparator ++ ")(a, b) < 0 end")
    else none

/-- Sort by a comparator. As a statement of its own the sort is a plain call; anywhere else the sorted
table is handed on. -/
def sortBy (list order note : String) : Edit Unit := do
  let d ← get
  if d.toSheet.atStatementStart && d.cursor.endsStatement then
    emit ("table.sort(" ++ list ++ order ++ ")" ++ note)
  else
    emit ("(function(_s) table.sort(_s" ++ order ++ ") return _s end)(" ++ list ++ ")" ++ note)

/-- `xs.sort(f)`. A comparator that is no function is dropped with a diagnostic. -/
def callSort (r : Rules) : Edit Unit := do
  let tokens ← arguments
  if Token.hasContent tokens then
    let comparator ← r.value tokens
    let list ← receiver
    match sortOrder? comparator with
    | some order => sortBy list order ""
    | none =>
      warn ("sort comparator could not be converted: " ++ comparator)
      sortBy list "" " --[[ comparator not converted ]]"
  else emit ":sort()"

/-! ### All methods -/

/-- Take the call of a method, known to the script as `name`. -/
def call (r : Rules) (method : Method) (name : String) : Edit Unit :=
  match method with
  | .push => r.callPush
  | .has | .get => r.callLookup
  | .set => r.callSet
  | .delete => r.callDelete
  | .keys => callKeys
  | .trim => callPlain ":match(\"^%s*(.-)%s*$\")"
  | .replace => r.callReplace false
  | .replaceAll => r.callReplace true
  | .split => do emit (":split(" ++ (← r.argument) ++ ")")
  | .join => r.callJoin
  | .includes => r.callIncludes
  | .startsWith => r.callStartsWith
  | .endsWith => r.callEndsWith
  | .toLowerCase => callPlain ":lower()"
  | .toUpperCase => callPlain ":upper()"
  | .toString => callToString
  | .sort => r.callSort
  | .filter => emit ":where"
  | .chain => emit (":" ++ name)

/-- Take a member behind its point. -/
def member (r : Rules) : Edit Unit := do
  skipTrivia
  let here ← cursor
  let name := here.current.text
  if !here.current.isIdentifier then emit "."
  else if name == "length" then
    skip 1
    let operand ← receiver
    emit (if Text.isSimpleOperand operand then "#" ++ operand else "#(" ++ operand ++ ")")
  else if name == "size" && (← afterMapName) then
    skip 1
    emit (Idiom.size (← receiver))
  else
    match if (here.ahead 1).1.isPunct ["("] then Method.ofName? name else none with
    | some method =>
      skip 1
      skipTrivia
      r.call method name
    | none =>
      skip 1
      emit ("." ++ name)

end NoteScript.Rules
