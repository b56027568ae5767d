import NoteScript.Rules.Control
import NoteScript.Rules.Declaration

/-!
# Statements

A statement is known by its keyword; anything else is an expression statement.
-/

namespace NoteScript.Rules

open Edit

/-- The rule for a statement with a keyword. -/
def keyword? (r : Rules) : String → Option (Edit Unit)
  | "const" | "let" | "var" => some r.declaration
  | "function" => some r.functionDeclaration
  | "if" => some r.ifStatement
  | "for" => some r.forStatement
  | "while" => some r.whileStatement
  | "do" => some r.doStatement
  | "return" => some r.returnStatement
  | "break" => some breakStatement
  | "continue" => some continueStatement
  | "throw" => some r.throwStatement
  | "switch" | "try" | "class" => some unsupportedStatement
  | _ => none

/-- Take an expression statement and remember where it begins. -/
def plainStatement (r : Rules) : Edit Unit := do
  markStatement
  r.expressionStatement false

/-- Take one statement, or one piece of trivia. -/
def anyStatement (r : Rules) : Edit Unit := do
  let t := (← cursor).current
  match t.kind with
  | .endOfText => pure ()
  | .space | .newline | .comment => emitTrivia
  | .identifier => (r.keyword? t.text).getD r.plainStatement
  | _ => r.plainStatement

end NoteScript.Rules
