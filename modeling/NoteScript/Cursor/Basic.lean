import NoteScript.Token.Bracket

/-!
# A cursor over tokens

A cursor stands between the tokens it has passed (`before`, the nearest first) and those to come
(`rest`). Past the last token it sees the closing token for ever, and `overrun` counts the steps it
takes there.
-/

namespace NoteScript

/-- A place in a token list. -/
structure Cursor where
  before : List Token
  rest : List Token
  overrun : Nat := 0
deriving DecidableEq

namespace Cursor

/-- The cursor at the start of a token list. -/
def ofTokens (tokens : List Token) : Cursor := { before := [], rest := tokens }

/-- The token list that a cursor moves over. -/
def tokens (c : Cursor) : List Token := c.before.reverse ++ c.rest

/-- The number of steps from the start. -/
def pos (c : Cursor) : Nat := c.before.length + c.overrun

/-- The token at the cursor. -/
def current (c : Cursor) : Token := c.rest.headD .eof

/-- The token at a distance, in either direction; the closing token where the list has none. -/
def peek (c : Cursor) (offset : Int) : Token :=
  match offset with
  | .ofNat n => c.rest.getD n .eof
  | .negSucc n => if n < c.overrun then .eof else c.before.getD (n - c.overrun) .eof

/-- Is there nothing left but the closing token? -/
def atEnd (c : Cursor) : Bool := c.current.isEof

/-- One step on. -/
def advance (c : Cursor) : Cursor :=
  match c.rest with
  | t :: rest => { c with before := t :: c.before, rest := rest }
  | [] => { c with overrun := c.overrun + 1 }

/-- A number of steps on. -/
def advanceBy (c : Cursor) : Nat → Cursor
  | 0 => c
  | n + 1 => c.advance.advanceBy n

/-- Is the cursor at punctuation spelled as one of `texts`? -/
def atPunct (c : Cursor) (texts : List String) : Bool := c.current.isPunct texts

/-- Is the cursor at the identifier `word`? -/
def atWord (c : Cursor) (word : String) : Bool := c.current.isWord word

/-- The tokens from the cursor on which satisfy `p`. -/
def run (c : Cursor) (p : Token → Bool) : List Token := c.rest.takeWhile p

/-- The cursor behind the trivia. -/
def skipTrivia (c : Cursor) : Cursor := c.advanceBy (c.run Token.isTrivia).length

/-- The cursor behind the blanks of this line. -/
def skipSpace (c : Cursor) : Cursor := c.advanceBy (c.run (·.kind == .space)).length

/-- The first token that is no trivia among the tokens at least `offset` ahead, and its distance. -/
def ahead (c : Cursor) (offset : Nat) : Token × Nat :=
  let tokens := c.rest.drop offset
  ((tokens.dropWhile Token.isTrivia).headD .eof, offset + (tokens.takeWhile Token.isTrivia).length)

/-- The first token that is no trivia from a place on, which may lie behind the cursor, and its
distance. -/
def significantFrom (c : Cursor) (offset : Int) : Token × Int :=
  match offset with
  | .ofNat n => ((c.ahead n).1, (c.ahead n).2)
  | .negSucc n =>
    let start : Cursor := { before := [], rest := c.tokens.drop (c.pos - (n + 1)) }
    if c.pos < n + 1 then (.eof, offset) else ((start.ahead 0).1, offset + (start.ahead 0).2)

/-- The nearest token passed that is no trivia. -/
def previous (c : Cursor) : Token := (c.before.find? (!·.isTrivia)).getD .eof

/-- The tokens passed between an earlier place and this one. -/
def passedSince (c start : Cursor) : List Token := start.rest.take (start.rest.length - c.rest.length)

/-- The line of a place, counted from one: the line feeds in the tokens before it. -/
def lineAfter : List Token → Nat
  | [] => 1
  | t :: rest => t.lineFeeds + lineAfter rest

/-- The line that the cursor stands on. -/
def line (c : Cursor) : Nat := lineAfter c.before

/-- The line of a token by its index; a negative index counts from the end of the list. -/
def lineOf (c : Cursor) (index : Int) : Nat :=
  let size := c.tokens.length
  lineAfter (c.tokens.take (match index with | .ofNat n => n | .negSucc n => size - (n + 1)))

end Cursor

end NoteScript
