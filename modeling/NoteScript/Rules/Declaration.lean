import NoteScript.Rules.Function
import NoteScript.Rules.Skip

/-!
# Declarations

Each declared name with a value gets a `local` of its own, so that later values see it. Names without a
value in a row share one.
-/

namespace NoteScript.Rules

open Edit

/-- Declare names without a value. -/
def declareBare (separator : String) (names : List String) : Edit Unit :=
  if names.isEmpty then pure () else emit (separator ++ "local " ++ String.intercalate ", " names)

/-- Finish a declaration. -/
def endDeclaration (separator : String) (names : List String) : Edit Unit := do
  declareBare separator names
  skipPunct ";"

/-- Does the value at the cursor make a new map? -/
def makesMap (c : Cursor) : Bool := c.atWord "new" && (c.ahead 1).1.isWord "Map"

/-- Declare a name with the value at the cursor. -/
def declareValue (r : Rules) (separator name : String) : Edit Unit := do
  if makesMap (← cursor) then modify fun d => { d with toLedger := d.toLedger.addMapName name }
  emit (separator ++ "local " ++ name ++ " = ")
  r.expressionStatement true

/-- Declare `limit` names at most, starting with the name at the cursor. `names` has the names without
a value that are still to be declared, and `separator` stands between two declarations. -/
def declareUpTo (r : Rules) : Nat → String → List String → Edit Unit
  | 0, separator, names => endDeclaration separator names
  | limit + 1, separator, names => do
    let name := (← next).text
    skipSpace
    let here ← cursor
    let (following, offset) := here.ahead 0
    if following.isOperator ["="] then
      declareBare separator names
      skip (offset + 1)
      skipTrivia
      r.declareValue (if names.isEmpty then separator else "; ") name
      let behind ← cursor
      if behind.atPunct [","] then
        let (nextName, nameOffset) := behind.ahead 1
        if nextName.isIdentifier then
          skip nameOffset
          r.declareUpTo limit "; " []
        else endDeclaration "; " []
    else
      let (nextName, nameOffset) := here.ahead (offset + 1)
      if following.isPunct [","] && nextName.isIdentifier then
        skip nameOffset
        r.declareUpTo limit separator (names ++ [name])
      else endDeclaration separator (names ++ [name])

/-- Take a declaration. A pattern in the place of a name is passed over. -/
def declaration (r : Rules) : Edit Unit := do
  skip 1
  skipTrivia
  let here ← cursor
  if here.current.isIdentifier then r.declareUpTo here.rest.length "" []
  else
    unsupported "destructuring declaration"
    skipStatement

/-- Take a function declaration; a function without a name is an expression statement. -/
def functionDeclaration (r : Rules) : Edit Unit := do
  let (name, offset) := (← cursor).ahead 1
  if name.isIdentifier then
    skip (offset + 1)
    skipTrivia
    let params ← parameters
    skipTrivia
    r.functionLiteral ("local function " ++ name.text) params
  else r.expressionStatement false

end NoteScript.Rules
