import NoteScript.Buffer.Key
import NoteScript.Rules.Name
import NoteScript.Token.Scan

/-!
# Units of an expression

One unit at the cursor: trivia, a literal, an arrow function, an operator, a punctuation mark or a
name.
-/

namespace NoteScript.Rules

open Edit

/-! ### Templates -/

/-- The segments of a template: text in quotes, unless it is empty, and embedded expressions as
strings. -/
def templateSegments (r : Rules) : List TemplatePart → Edit (List String)
  | [] => pure []
  | .text raw :: rest => do
    let text := Literal.body raw
    let segments ← r.templateSegments rest
    return if text.isEmpty then segments else ("\"" ++ text ++ "\"") :: segments
  | .expr source :: rest => do
    let value ← r.value (Token.scan source)
    return ("tostring(" ++ value ++ ")") :: (← r.templateSegments rest)

/-- The Lua form of a template. -/
def template (r : Rules) (parts : List TemplatePart) : Edit String := do
  let segments ← r.templateSegments parts
  return if segments.isEmpty then "\"\"" else String.intercalate " .. " segments

/-! ### Operators and punctuation -/

/-- Take an operator. -/
def operator (r : Rules) : Edit Unit := do
  let op := (← cursor).current.text
  match op with
  | "++" | "--" => r.update
  | "." =>
    skip 1
    r.member
  | "+=" | "-=" =>
    skip 1
    r.compoundAssignment op
  | _ => binaryOperator op

/-- Take a square bracket: an index behind an operand, a table elsewhere. -/
def squareBracket (r : Rules) : Edit Unit := do
  let start ← cursor
  skip 1
  if start.followsOperand false then emit "["
  else
    emit "\x7b"
    r.units (·.atPunct ["]"])
    skipPunct "]"
    emit "\x7d"

/-- Take two question marks, for which `or` has to do. -/
def nullish : Edit Unit := do
  let start ← cursor
  skip 2
  warn "'??' approximated with 'or' (false also falls through)"
  emit (spaced (start.peek (-1)) (start.peek 2) "or")

/-- Take a colon: behind a key inside braces it assigns. -/
def colon : Edit Unit := do
  skip 1
  match (← written).makeKey? with
  | some out =>
    rework fun _ => out
    emit " ="
  | none => emit ":"

/-- Take a punctuation mark. -/
def punctuation (r : Rules) : Edit Unit := do
  let here ← cursor
  match here.current.text with
  | ";" => skip 1
  | "?" => if (here.peek 1).isPunct ["?"] then nullish else r.conditional
  | "[" => r.squareBracket
  | ":" => colon
  | mark =>
    skip 1
    emit mark

/-! ### Any unit -/

/-- Take a unit which is no trivia and no literal. -/
def compoundUnit (r : Rules) : Edit Unit := do
  let here ← cursor
  match here.arrow? with
  | some arrow => r.arrowFunction arrow
  | none =>
    match here.current.kind with
    | .operator => r.operator
    | .punctuation => r.punctuation
    | _ => r.name

/-- Take one unit of an expression. -/
def unit (r : Rules) : Edit Unit := do
  let t := (← cursor).current
  match t.kind with
  | .endOfText => pure ()
  | .space | .newline | .comment => emitTrivia
  | .template parts =>
    skip 1
    emit (← r.template parts)
  | .string =>
    skip 1
    emit (Literal.ofString t.text)
  | .number =>
    skip 1
    emit t.text
  | .regex =>
    skip 1
    emit (← regexLiteral t.text)
  | .operator | .punctuation | .identifier => r.compoundUnit

end NoteScript.Rules
