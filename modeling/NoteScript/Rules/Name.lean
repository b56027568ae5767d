import NoteScript.Rules.Call

/-!
# Names

Constants, `typeof`, `new`, functions, and the members of the global objects that have a counterpart in
Lua. Any other name stays as it is.
-/

namespace NoteScript.Rules

open Edit

/-- The Lua form of a constant. -/
def constant? : String → Option String
  | "null" => some "nil"
  | "undefined" => some "nil"
  | "this" => some "self"
  | "NaN" => some "(0/0)"
  | "Infinity" => some "math.huge"
  | "true" => some "true"
  | "false" => some "false"
  | _ => none

/-- `typeof x`. -/
def typeOf (r : Rules) : Edit Unit := do
  skip 1
  skipTrivia
  emit ("type(" ++ (← r.value (← operandTokens)) ++ ")")

/-! ### Constructors -/

/-- Constructors that make an empty table. -/
def emptyConstructors : List String := ["Map", "Set", "Array", "Object"]

/-- A constructor call behind `new`: an empty table, an error message, or nothing but the name. -/
def construct (r : Rules) : Edit Unit := do
  skip 1
  skipTrivia
  let target := (← cursor).current
  if target.isIdentifier && emptyConstructors.contains target.text then
    skip 1
    skipSpace
    if (← cursor).atPunct ["("] then
      if Token.hasContent (← arguments) then
        warn ("constructor arguments of new " ++ target.text ++ "(...) were dropped")
    emit "\x7b\x7d"
  else if target.isIdentifier && Text.endsWith "Error" target.text then
    skip 1
    skipSpace
    let message ← if (← cursor).atPunct ["("] then r.argument else pure ""
    emit (if message.isEmpty then Literal.quote target.text else message)
  else
    warn ("'new' dropped before " ++ (if target.text.isEmpty then "end of input" else target.text))

/-! ### Global objects -/

/-- The functions of `Math` with the same name in Lua. -/
def mathFunctions : List String :=
  ["floor", "ceil", "abs", "min", "max", "sqrt", "pow", "log", "random", "exp", "sin", "cos"]

/-- The methods of `console`, all of which print. -/
def consoleMethods : List String := ["log", "info", "warn", "error", "debug"]

/-- The counterpart of a member of a global object that is written as it is. -/
def plainGlobal? (object name : String) : Option String :=
  match object with
  | "Math" =>
    if mathFunctions.contains name then some ("math." ++ name)
    else if name == "PI" then some "math.pi"
    else none
  | "console" => if consoleMethods.contains name then some "print" else none
  | "JSON" =>
    match name with
    | "stringify" => some "vim.inspect"
    | "parse" => some "vim.json.decode"
    | _ => none
  | _ => none

/-- `Math.round`: as a call or as a function. -/
def mathRound (r : Rules) : Edit Unit := do
  skipSpace
  if (← cursor).atPunct ["("] then emit ("math.floor(" ++ (← r.argument) ++ " + 0.5)")
  else emit "function(x) return math.floor(x + 0.5) end"

/-- Take the arguments of a call behind trivia as one value. -/
def laterArgument (r : Rules) : Edit String := do
  skipTrivia
  r.argument

/-- `Array.from(x)` is `x`; a key table with `.sort()` behind it is a sorted key table. -/
def arrayFrom (r : Rules) : Edit Unit := do
  let argument ← r.laterArgument
  match Idiom.keysArgument? argument with
  | some table => if ← takePlainSort then emit (Idiom.keys table true) else emit argument
  | none => emit argument

/-- The rule for a member of a global object, with the cursor behind the member. -/
def global? (r : Rules) (object name : String) : Option (Edit Unit) :=
  match object, name with
  | "Math", "round" => some r.mathRound
  | "Object", "keys" => some do emit (Idiom.keys (← r.laterArgument) false)
  | "Object", "values" => some do emit (Idiom.values (← r.laterArgument))
  | "Object", "entries" => some do emit (Idiom.entries (← r.laterArgument))
  | "Array", "from" => some r.arrayFrom
  | "Array", "isArray" => some do emit ("(type(" ++ (← r.laterArgument) ++ ") == \"table\")")
  | _, _ => (plainGlobal? object name).map emit

/-! ### Any name -/

/-- The Lua form of a name that is not a member of a global object; two of them are conversions when
called. -/
def plainName (name : String) (called : Bool) : String :=
  match name with
  | "parseInt" | "parseFloat" => "tonumber"
  | "String" => if called then "tostring" else name
  | "Number" => if called then "tonumber" else name
  | _ => name

/-- Take a name. -/
def name (r : Rules) : Edit Unit := do
  let here ← cursor
  let name := here.current.text
  match constant? name, name with
  | some lua, _ =>
    skip 1
    emit lua
  | none, "typeof" => r.typeOf
  | none, "new" => r.construct
  | none, "function" => r.functionExpression
  | none, _ =>
    match here.member?.bind fun (member, offset) => (r.global? name member).map (·, offset) with
    | some (rule, offset) =>
      skip (offset + 1)
      rule
    | none =>
      skip 1
      emit (plainName name ((here.ahead 1).1.isPunct ["("]))

end NoteScript.Rules
