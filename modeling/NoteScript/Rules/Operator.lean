import NoteScript.Rules.Function
import NoteScript.Text.Word

/-!
# Operators and conditionals

Binary operators keep the layout of the source and get blanks only where it has none. Compound
assignments and updates are left in a form that is spelled out on the finished text.
-/

namespace NoteScript.Rules

open Edit

/-! ### Binary operators -/

/-- The spelling of an operator in Lua. -/
def luaOperator : String → String
  | "===" => "=="
  | "==" => "=="
  | "!==" => "~="
  | "!=" => "~="
  | "&&" => "and"
  | "||" => "or"
  | "!" => "not "
  | op => op

/-- The operators that need blanks around them. -/
def spacedOperators : List String := ["+", "..", "and", "or"]

/-- An operator with a blank on each side where the source has no trivia. -/
def spaced (before after : Token) (op : String) : String :=
  (if before.isTrivia then "" else " ") ++ op ++ (if after.isTrivia then "" else " ")

/-- A plus sign joins strings if text in quotes stands on either side. -/
def plusSign (lastWritten : String) (following : Token) : String :=
  if Text.endsWith "\"" lastWritten || following.isStringLike then ".." else "+"

/-- Take a binary operator. -/
def binaryOperator (op : String) : Edit Unit := do
  let start ← cursor
  skip 1
  let out ← written
  let text := if op == "+" then plusSign out.lastWritten (start.ahead 1).1 else luaOperator op
  if spacedOperators.contains text then emit (spaced (start.peek (-1)) (start.peek 1) text)
  else emit text

/-! ### Assignments and updates -/

/-- An entry behind the value of an assignment: white space or a comment. -/
def isTrailing (entry : String) : Bool :=
  Text.isBlank entry || Text.beginsWith "--" (Text.stripStart entry)

/-- A value that needs no parentheses as the right operand of an operator. -/
def isAtomic (value : String) : Bool := Text.isSimpleOperand value || Literal.isQuoted value

/-- Write a compound assignment, given what was captured for its right side. `joins` says that the
right side starts with a string. -/
def compoundText (op : String) (joins : Bool) (captured : Buffer) : Buffer :=
  let trailing := (captured.reverse.takeWhile isTrailing).reverse
  let bare := Text.strip (Buffer.text (captured.reverse.dropWhile isTrailing).reverse)
  let value := if bare.isEmpty then "nil" else bare
  let joined := op == "+=" && (joins || Text.contains " .. " value)
  let operand := if isAtomic value then value else "(" ++ value ++ ")"
  ((if joined then "..=" else op) ++ " " ++ operand) :: trailing

/-- Take a compound assignment behind its operator. -/
def compoundAssignment (r : Rules) (op : String) : Edit Unit := do
  let (following, _) := (← cursor).ahead 0
  skipTrivia
  let captured ← capture r.rightSide
  rework (· ++ compoundText op following.isStringLike captured)

/-- Take an update. One in front of its operand is written behind it, so that both look the same. -/
def update (r : Rules) : Edit Unit := do
  let behindOperand := (← cursor).followsOperand true
  let op ← next
  if behindOperand then emit (op.text ++ " ")
  else
    skipSpace
    let operand ← r.value (← operandTokens)
    emit (operand ++ op.text ++ " ")

/-! ### Conditionals -/

/-- Where the first branch of a conditional ends. -/
def endsThenBranch (c : Cursor) : Bool := c.current.isCloser || c.atPunct [":"]

/-- Where the second branch of a conditional ends. -/
def endsElseBranch (c : Cursor) : Bool :=
  c.current.isCloser || c.atPunct [":", ",", ";"] || c.atLineEnd

/-- Take the first branch with the colon behind it. -/
def thenBranch (r : Rules) : Edit String := do
  let captured ← capture do
    r.units endsThenBranch
    skipPunct ":"
  return Text.strip captured.text

/-- Take the second branch. -/
def elseBranch (r : Rules) : Edit String := do
  let captured ← capture (r.units endsElseBranch)
  return Text.strip captured.text

/-- Take a conditional: the text written so far holds its condition. -/
def conditional (r : Rules) : Edit Unit := do
  skip 1
  let condition ← takeOperand false
  let yes ← r.thenBranch
  let no ← r.elseBranch
  emit ("(function() if " ++ condition ++ " then return " ++ yes ++ " else return " ++ no ++ " end end)()")

end NoteScript.Rules
