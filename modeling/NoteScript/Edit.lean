import NoteScript.Cursor.Group
import NoteScript.Desk

/-!
# Actions on the desk

An `Edit` is an action on the desk that may stop with a fault. A fault leaves the desk as it is at
that moment; the scoped actions (`capture`, `nested`, `enclosedBy`, `asStatements`) put back what they
changed in either case.
-/

namespace NoteScript

/-- An action on the desk. -/
abbrev Edit := ExceptT Fault (StateM Desk)

namespace Edit

/-! ### Looking and moving -/

/-- The cursor. -/
def cursor : Edit Cursor := return (← get).cursor

/-- The text written so far. -/
def written : Edit Buffer := return (← get).out

/-- The number of entries written so far. -/
def mark : Edit Nat := return (← get).out.length

/-- Move the cursor. -/
def move (f : Cursor → Cursor) : Edit Unit := modify fun d => { d with cursor := f d.cursor }

/-- Take the token at the cursor. -/
def next : Edit Token := do
  let c ← cursor
  move Cursor.advance
  return c.current

/-- Pass a number of tokens. -/
def skip (count : Nat) : Edit Unit := move (·.advanceBy count)

/-- Pass the trivia. -/
def skipTrivia : Edit Unit := move Cursor.skipTrivia

/-- Pass the blanks of this line. -/
def skipSpace : Edit Unit := move Cursor.skipSpace

/-- Pass a punctuation mark, if it stands at the cursor. -/
def skipPunct (text : String) : Edit Unit := do
  if (← cursor).atPunct [text] then skip 1

/-- Take the group at the cursor: the tokens between its brackets. -/
def group (opener closer : String) : Edit (List Token) := fun d =>
  let (result, c) := d.cursor.group opener closer
  (result, { d with cursor := c })

/-- Take the arguments of a call. -/
def arguments : Edit (List Token) := group "(" ")"

/-! ### Writing -/

/-- Write an entry. -/
def emit (entry : String) : Edit Unit := modify fun d => { d with out := d.out.emit entry }

/-- Rework the text written so far. -/
def rework (f : Buffer → Buffer) : Edit Unit := modify fun d => { d with out := f d.out }

/-- Take back the operand written last. -/
def takeOperand (operatorsEnd : Bool) : Edit String := fun d =>
  let (operand, left) := d.out.takeOperand operatorsEnd
  (.ok operand, { d with out := left })

/-- Remember that an expression statement begins here. -/
def markStatement : Edit Unit := modify fun d => d.onSheet d.toSheet.markStatement

/-- Record a diagnostic. -/
def warn (message : String) : Edit Unit :=
  modify fun d => { d with diagnostics := d.diagnostics ++ [message] }

/-- Add an entry to the journal. -/
def record (event : Event) : Edit Unit := modify fun d => { d with journal := d.journal ++ [event] }

/-- The label of a loop by its number. -/
def loopLabel (number : Nat) : String := s!"continue_{number}"

/-- Hand out a loop label. -/
def nextLabel : Edit String := do
  let count := (← get).labels + 1
  modify fun d => { d with labels := count }
  return loopLabel count

/-! ### Scopes -/

/-- Write into a buffer of its own and hand that out. -/
def capture (action : Edit Unit) : Edit Buffer := fun d =>
  let (result, d') := action (d.onSheet d.toSheet.beginCapture)
  (result.map fun _ => d'.out, d'.onSheet d'.toSheet.endCapture)

/-- Work on a nested token list with a sheet of its own; hand out the text written there, without outer
white space. -/
def nested (tokens : List Token) (action : Edit Unit) : Edit String := fun d =>
  let (result, d') := action (d.onSheet (.nested tokens))
  (result.map fun _ => Text.strip d'.out.text, d'.onSheet d.toSheet)

/-- Work inside a loop or function; hand out what became of it. -/
def enclosedBy (enclosure : Enclosure) (action : Edit Unit) : Edit Enclosure := fun d =>
  let (result, d') := action { d with
    enclosures := enclosure :: d.enclosures, journal := d.journal ++ [.entered enclosure.scope] }
  (result.map fun _ => d'.enclosures.headD enclosure, { d' with
    enclosures := d'.enclosures.tail, journal := d'.journal ++ [.left enclosure.scope] })

/-- Work on statements, whatever the sheet holds. -/
def asStatements (action : Edit Unit) : Edit Unit := fun d =>
  let (result, d') := action { d with inExpression := false }
  (result, { d' with inExpression := d.inExpression })

end Edit

end NoteScript
