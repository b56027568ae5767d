import NoteScript.Cursor.Group

/-!
# Looking around from a cursor

What the rules ask about the neighbourhood of a place: whether an expression goes on behind a line
feed, whether an operand stands in front, whether an arrow function starts here, and what a call is
made of. No question moves the cursor.
-/

namespace NoteScript.Cursor

/-- Words after which an operand is still to come. -/
def operatorWords : List String :=
  ["return", "typeof", "in", "of", "case", "else", "do", "new", "void", "throw", "await", "yield",
   "delete"]

/-- Operators after which an expression goes on in the next line. -/
def continuingOperators : List String :=
  ["+", "-", "*", "/", "%", "=", "==", "===", "!=", "!==", "<", ">", "<=", ">=", "&&", "||", "=>",
   "+=", "-=", "."]

/-- A token that continues the expression of the line before. -/
def continuesLine (t : Token) : Bool := t.isOperator [".", "&&", "||"] || t.isPunct ["?"]

/-- At a line feed: does the expression go on behind it? -/
def lineGoesOn (c : Cursor) : Bool :=
  continuesLine (c.ahead 1).1
    || c.previous.isOperator continuingOperators || c.previous.isPunct [",", "?", ":"]

/-- At a line feed where the expression ends. -/
def atLineEnd (c : Cursor) : Bool := c.current.isNewline && !c.lineGoesOn

/-- A token that ends an operand which an index or an update may follow. -/
def endsTarget (t : Token) : Bool :=
  if t.isIdentifier then !operatorWords.contains t.text
  else t.isStringLike || t.isPunct [")", "]"]

/-- Does the nearest of the passed tokens, trivia apart, end an operand? With `sameLine` a line feed
in between counts as a no. -/
def operandIn (sameLine : Bool) : List Token → Bool
  | [] => false
  | t :: older =>
    if t.isTrivia then !(sameLine && t.isNewline) && operandIn sameLine older
    else endsTarget t

/-- Does an operand stand right in front of the cursor? -/
def followsOperand (c : Cursor) (sameLine : Bool) : Bool := operandIn sameLine c.before

/-- Does the statement end behind the cursor, but for blanks and a comment? -/
def endsStatement (c : Cursor) : Bool :=
  let next := c.skipSpace
  match next.current.kind with
  | .newline => !continuesLine (next.ahead 1).1
  | .endOfText | .comment => true
  | _ => next.atPunct [";", "\x7d"]

/-! ### Arrow functions -/

/-- The head of an arrow function: its parameters and the number of tokens up to its body. -/
structure Arrow where
  params : String
  size : Nat

/-- The identifiers among some tokens, as a parameter list. -/
def paramList (tokens : List Token) : String :=
  String.intercalate ", " ((tokens.filter (·.isIdentifier)).map (·.text))

/-- The arrow function that starts at the cursor. -/
def arrow? (c : Cursor) : Option Arrow :=
  if c.current.isIdentifier then
    let (next, offset) := c.ahead 1
    if next.isOperator ["=>"] then some ⟨c.current.text, offset + 1⟩ else none
  else if c.atPunct ["("] then
    match groupFrom "(" ")" 0 c.advance.rest with
    | none => none
    | some inside =>
      let (next, offset) := c.ahead (inside.length + 2)
      if next.isOperator ["=>"] then some ⟨paramList inside, offset + 1⟩ else none
  else none

/-! ### Members and calls -/

/-- The member behind a name and a point, and its distance. -/
def member? (c : Cursor) : Option (String × Nat) :=
  let (dot, dotOffset) := c.ahead 1
  let (name, nameOffset) := c.ahead (dotOffset + 1)
  if dot.isOperator ["."] && name.isIdentifier then some (name.text, nameOffset) else none

/-- The number of tokens of a call `.sort()` without arguments that follows. -/
def plainSort? (c : Cursor) : Option Nat :=
  let (dot, dotOffset) := c.ahead 0
  let (name, nameOffset) := c.ahead (dotOffset + 1)
  let (opener, openOffset) := c.ahead (nameOffset + 1)
  let (closer, closeOffset) := c.ahead (openOffset + 1)
  if dot.isOperator ["."] && name.isWord "sort" && opener.isPunct ["("] && closer.isPunct [")"] then
    some (closeOffset + 1)
  else none

end NoteScript.Cursor
