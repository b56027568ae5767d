import NoteScript.Buffer.Operand
import NoteScript.Cursor.Basic

/-!
# The desk

A run works on one token list at a time, on a `Sheet`: a cursor over the tokens and the text written
for them. A nested token list (an argument, a condition, an embedded expression) gets a sheet of its
own. All sheets of a run share its `Ledger`: the variables known to be maps, the enclosing loops and
functions, the labels handed out, the diagnostics and a journal of its loops and jumps. The `Desk` is the
current sheet with the ledger.
-/

namespace NoteScript

/-- A loop or function that the current place is in. -/
inductive Enclosure where
  /-- A loop, its label, and whether anything jumps to that label. -/
  | loop (label : String) (continued : Bool)
  /-- A function, which no jump to an outer loop leaves. -/
  | function
deriving DecidableEq

/-- What a jump is read in: a loop by its label, or a function. -/
inductive Scope where
  | loop (label : String)
  | function
deriving DecidableEq

/-- The scope that an enclosure stands for, whether or not anything jumps there. -/
def Enclosure.scope : Enclosure → Scope
  | .loop label _ => .loop label
  | .function => .function

/-- An entry of the journal. -/
inductive Event where
  /-- The work inside a loop or function begins. -/
  | entered (scope : Scope)
  /-- The work inside a loop or function is over. -/
  | left (scope : Scope)
  /-- A jump to a label is written. -/
  | jumped (label : String)
  /-- A jump without a loop to go to is turned down. -/
  | refused
  /-- The label of a loop is written. -/
  | labelled (label : String)
  /-- The keyword that closes a loop is written. -/
  | closed (label : String)
deriving DecidableEq

/-- The work on one token list. While a part is captured, `out` holds that part alone and `held` the
text around it, the innermost capture first. -/
structure Sheet where
  cursor : Cursor
  out : Buffer := []
  held : List Buffer := []
  /-- Does the sheet hold a value and not statements? -/
  inExpression : Bool := false
  /-- Where the current expression statement began: the captures open and the entries written then. -/
  statementStart : Option (Nat × Nat) := none
deriving DecidableEq

/-- What all sheets of a run share. -/
structure Ledger where
  mapNames : List String := []
  /-- The innermost first. -/
  enclosures : List Enclosure := []
  /-- The number of loop labels handed out. -/
  labels : Nat := 0
  /-- The oldest first. -/
  diagnostics : List String := []
  /-- The loops and jumps written so far, the oldest first. -/
  journal : List Event := []
deriving DecidableEq

/-- The current sheet and the ledger. -/
structure Desk extends Sheet, Ledger
deriving DecidableEq

namespace Sheet

/-- A sheet for statements. -/
def ofTokens (tokens : List Token) : Sheet := { cursor := .ofTokens tokens }

/-- A sheet for the value of a nested token list. -/
def nested (tokens : List Token) : Sheet :=
  { cursor := .ofTokens (tokens ++ [.eof]), inExpression := true }

/-- Remember that an expression statement begins here, unless the sheet holds a value. -/
def markStatement (s : Sheet) : Sheet :=
  if s.inExpression then s else { s with statementStart := some (s.held.length, s.out.length) }

/-- Has nothing been written since the current expression statement began? -/
def atStatementStart (s : Sheet) : Bool :=
  !s.inExpression && s.statementStart == some (s.held.length, s.out.length)

/-- Write into a buffer of its own from here on. -/
def beginCapture (s : Sheet) : Sheet := { s with out := [], held := s.out :: s.held }

/-- Go back to the text around the current capture. A statement that began inside the capture is
forgotten. -/
def endCapture (s : Sheet) : Sheet :=
  match s.held with
  | [] => s
  | outer :: held =>
    { s with
      out := outer, held := held
      statementStart := s.statementStart.filter fun start => start.1 ≤ held.length }

end Sheet

namespace Ledger

/-- The ledger at the start of a further script of the same run: labels, diagnostics and the journal go
on. -/
def nextScript (l : Ledger) : Ledger := { l with mapNames := [], enclosures := [] }

/-- Add a variable that holds a map. -/
def addMapName (l : Ledger) (name : String) : Ledger :=
  if l.mapNames.contains name then l else { l with mapNames := l.mapNames ++ [name] }

/-- Note that something jumps to the label of the innermost loop. -/
def markContinued (l : Ledger) : Ledger :=
  match l.enclosures with
  | .loop label _ :: outer => { l with enclosures := .loop label true :: outer }
  | _ => l

end Ledger

namespace Desk

/-- A desk for a script. -/
def ofTokens (tokens : List Token) (ledger : Ledger) : Desk :=
  { toSheet := .ofTokens tokens, toLedger := ledger.nextScript }

/-- The same ledger with another sheet. -/
def onSheet (d : Desk) (sheet : Sheet) : Desk := { toSheet := sheet, toLedger := d.toLedger }

/-- How deep the rules may be nested on this desk: each nested rule works on less source text, and a
statement hands its text to an expression once. -/
def budget (d : Desk) : Nat := 2 * Token.textSize d.cursor.rest + 2

end Desk

end NoteScript
