import NoteScript.Rules.Expression
import NoteScript.Rules.Statement

/-!
# The rules put together

`Rules.within n` are the rules for nesting up to depth `n`: each rule may use the rules for one depth
less. A run gets a budget from the text on its desk that no nesting in that text uses up.
-/

namespace NoteScript

namespace Rules

/-- The rules, given the rules to use inside them. -/
def next (inner : Rules) : Rules := ⟨inner.anyStatement, inner.unit⟩

/-- The rules for nesting up to a depth. -/
def within : Nat → Rules
  | 0 => exhausted
  | depth + 1 => (within depth).next

end Rules

namespace Edit

/-- Run an action with rules for any nesting that the text on the desk can hold. -/
def withRules (action : Rules → Edit Unit) : Edit Unit := do
  action (.within (← get).budget)

/-- Take one statement at the cursor. -/
def statement : Edit Unit := withRules (·.statement)

/-- Take one unit of an expression at the cursor. -/
def expression : Edit Unit := withRules (·.expression)

/-- Take the block at the cursor, if there is one. -/
def block : Edit Unit := withRules (·.block)

/-- Take all statements. -/
def statements : Edit Unit := withRules (·.statements)

end Edit

/-- Convert a script, given as a token list with its closing token. The ledger carries labels and
diagnostics from script to script. -/
def convertTokens (tokens : List Token) (ledger : Ledger) : Except Fault String × Ledger :=
  let (result, d) := Edit.statements (Desk.ofTokens tokens ledger)
  (result.map fun _ => d.out.text, d.toLedger)

end NoteScript
