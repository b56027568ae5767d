import NoteScript.Cursor.Lookahead
import NoteScript.Edit
import NoteScript.Literal

/-!
# The two rules and what is built on them

All is done by two rules that call each other: one takes a statement, one takes a unit of
an expression. `Rules` holds the two as they are available inside a rule; each further form below is
defined from them. The loops are bounded by the tokens at hand, since every step takes one at least.
-/

namespace NoteScript

open Edit

/-- The rule for a statement and the rule for a unit of an expression. -/
structure Rules where
  statement : Edit Unit
  expression : Edit Unit

namespace Rules

/-- The rules when the budget of nesting is used up. -/
def exhausted : Rules := ⟨throw .tooDeep, throw .tooDeep⟩

/-! ### Trivia -/

/-- Write a comment, kept apart from text in front of it. -/
def emitComment (source : String) : Edit Unit := do
  if (← written).getLast?.any Buffer.endsWithText then emit " "
  emit (Literal.comment source)

/-- Take one piece of trivia and write it. -/
def emitTrivia : Edit Unit := do
  let t ← next
  if t.kind == .comment then emitComment t.text else emit t.text

/-! ### Statements -/

/-- Take `limit` statements at most, up to the end of the tokens. A token that no statement takes is
written as it is. -/
def statementsUpTo (r : Rules) : Nat → Edit Unit
  | 0 => pure ()
  | limit + 1 => do
    let start ← cursor
    if start.atEnd then pure ()
    else
      r.statement
      if (← cursor).pos == start.pos then emit (← next).text
      r.statementsUpTo limit

/-- Take all statements. -/
def statements (r : Rules) : Edit Unit := do
  r.statementsUpTo (← cursor).rest.length

/-- The text of a nested token list. -/
def value (r : Rules) (tokens : List Token) : Edit String := nested tokens r.statements

/-- Take `limit` statements of a block at most; tell whether the block was closed. -/
def blockUpTo (r : Rules) : Nat → Edit Bool
  | 0 => pure false
  | limit + 1 => do
    let start ← cursor
    if start.atEnd then pure false
    else if start.atPunct ["\x7d"] then
      skip 1
      pure true
    else
      r.statement
      if (← cursor).pos == start.pos then emit (← next).text
      r.blockUpTo limit

/-- Take the block at the cursor, if there is one, and write its statements without the braces. -/
def block (r : Rules) : Edit Unit := do
  let start ← cursor
  if start.atPunct ["\x7b"] then
    skip 1
    asStatements do
      let closed ← r.blockUpTo start.rest.length
      if !closed then throw (.unterminatedBlock start)

/-! ### Units of an expression -/

/-- Take `limit` units at most, up to a place where no bracket taken since the start is open and
`stops` holds. -/
def unitsUpTo (r : Rules) (stops : Cursor → Bool) : Nat → Int → Edit Unit
  | 0, _ => pure ()
  | limit + 1, depth => do
    let start ← cursor
    if start.atEnd || (depth == 0 && stops start) then pure ()
    else
      r.expression
      let here ← cursor
      r.unitsUpTo stops limit (depth + Token.bracketDepth (here.passedSince start))

/-- Take units up to a place where no bracket taken since the start is open and `stops` holds. -/
def units (r : Rules) (stops : Cursor → Bool) : Edit Unit := do
  r.unitsUpTo stops (← cursor).rest.length 0

/-- An expression statement ends at a semicolon, a closing bracket or the end of its line, and a
declared value at a comma too. -/
def endsStatement (atComma : Bool) (c : Cursor) : Bool :=
  c.atPunct [";"] || c.current.isCloser || (atComma && c.atPunct [","]) || c.atLineEnd

/-- Take an expression statement with its semicolon. -/
def expressionStatement (r : Rules) (atComma : Bool) : Edit Unit := do
  r.units (endsStatement atComma)
  skipPunct ";"

/-- The body of an arrow function and the right side of an assignment end at a comma, a semicolon, a
closing bracket or the end of the line. -/
def endsOperand (c : Cursor) : Bool := c.current.isCloser || c.atPunct [",", ";"] || c.atLineEnd

/-- Take the body of an arrow function or the right side of an assignment. -/
def rightSide (r : Rules) : Edit Unit := r.units endsOperand

end Rules

end NoteScript
