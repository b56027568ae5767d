import NoteScript.Rules.Basic

/-!
# Functions

Function literals, arrow functions and the operands that a prefix operator takes.
-/

namespace NoteScript.Rules

open Edit

/-! ### Function literals -/

/-- Take the block of a function. A jump inside does not reach the loops around the function. -/
def functionBody (r : Rules) : Edit Unit := do
  let _ ← enclosedBy .function r.block

/-- Write a function, given what stands before its parameter list, with the block at the cursor. -/
def functionLiteral (r : Rules) (head params : String) : Edit Unit := do
  let start ← mark
  emit (head ++ "(" ++ params ++ ")")
  if (← cursor).atPunct ["\x7b"] then r.functionBody
  rework (·.separateAt (start + 1))
  rework (·.emitClause start "end")

/-- Take the parameter list at the cursor, if there is one. -/
def parameters : Edit String := do
  if (← cursor).atPunct ["("] then return Cursor.paramList (← arguments) else return ""

/-- Take a function expression; its own name, if it has one, is dropped. -/
def functionExpression (r : Rules) : Edit Unit := do
  skip 1
  skipTrivia
  if (← cursor).current.isIdentifier then
    skip 1
    skipTrivia
  let params ← parameters
  skipTrivia
  r.functionLiteral "function" params

/-- Take an arrow function. -/
def arrowFunction (r : Rules) (arrow : Cursor.Arrow) : Edit Unit := do
  skip arrow.size
  skipTrivia
  if (← cursor).atPunct ["\x7b"] then r.functionLiteral "function" arrow.params
  else
    emit ("function(" ++ arrow.params ++ ") return ")
    r.rightSide
    emit " end"

/-! ### Operands of prefix operators -/

/-- Take the group at the cursor with its brackets. -/
def bracketed (opener closer : String) : Edit (List Token) := do
  let start ← cursor
  let _ ← group opener closer
  return (← cursor).passedSince start

/-- The cursor behind a point, blanks and a name. -/
def passMember (c : Cursor) : Cursor :=
  let behind := c.advance.skipSpace
  if behind.current.isIdentifier then behind.advance else behind

/-- Take `limit` members, indices and argument lists at most. -/
def operandSuffixes : Nat → Edit (List Token)
  | 0 => pure []
  | limit + 1 => do
    let start ← cursor
    if start.current.isOperator ["."] then
      move passMember
      return (← cursor).passedSince start ++ (← operandSuffixes limit)
    else if start.atPunct ["["] then return (← bracketed "[" "]") ++ (← operandSuffixes limit)
    else if start.atPunct ["("] then return (← bracketed "(" ")") ++ (← operandSuffixes limit)
    else pure []

/-- Take the operand of a prefix operator: a group, or a token with the members, indices and argument
lists behind it. -/
def operandTokens : Edit (List Token) := do
  let start ← cursor
  if start.atPunct ["("] then bracketed "(" ")"
  else if start.atEnd then pure []
  else
    let t ← next
    return t :: (← operandSuffixes start.rest.length)

end NoteScript.Rules
