import NoteScript.Rules.Basic

/-!
# Passing over what has no counterpart

A construct without a counterpart leaves a comment and a diagnostic; its tokens are passed over.
-/

namespace NoteScript.Rules

open Edit

/-- Leave a comment and a diagnostic for a construct that is passed over. -/
def unsupported (what : String) : Edit Unit := do
  warn ("unsupported construct skipped: " ++ what)
  emit ("--[[ unsupported: " ++ what ++ " ]]")

/-- The cursor behind the statement that starts `limit` tokens at most before its end, where `depth`
brackets are open. -/
def passStatement : Nat → Int → Cursor → Cursor
  | 0, _, c => c
  | limit + 1, depth, c =>
    if c.atEnd then c
    else if depth == 0 && c.atPunct [";"] then c.advance
    else if depth == 0 && (c.current.isCloser || c.atLineEnd) then c
    else passStatement limit (depth + Token.bracketDepth [c.current]) c.advance

/-- Pass over a statement. -/
def skipStatement : Edit Unit := move fun c => passStatement c.rest.length 0 c

/-- Pass over the body of a construct: a block or a statement. -/
def skipBody : Edit Unit := do
  skipTrivia
  if (← cursor).atPunct ["\x7b"] then
    let _ ← group "\x7b" "\x7d"
  else skipStatement

/-- Pass over the head of a clause, `limit` tokens at most, and the block behind it. -/
def skipToBlockUpTo : Nat → Edit Unit
  | 0 => pure ()
  | limit + 1 => do
    let here ← cursor
    if here.atEnd then pure ()
    else if here.atPunct ["\x7b"] then
      let _ ← group "\x7b" "\x7d"
    else if here.atPunct ["("] then
      let _ ← arguments
      skipToBlockUpTo limit
    else if here.atPunct [";", "\x7d"] then pure ()
    else
      skip 1
      skipToBlockUpTo limit

/-- Pass over the head of a clause and the block behind it. -/
def skipToBlock : Edit Unit := do
  skipToBlockUpTo (← cursor).rest.length

/-- Pass over `limit` clauses of a `try` statement at most. -/
def skipClausesUpTo : Nat → Edit Unit
  | 0 => pure ()
  | limit + 1 => do
    let (clause, offset) := (← cursor).ahead 0
    if clause.isWord "catch" || clause.isWord "finally" then
      skip (offset + 1)
      skipToBlock
      skipClausesUpTo limit

/-- Pass over a statement that is known by its keyword, and the clauses of a `try` statement. -/
def unsupportedStatement : Edit Unit := do
  let keyword := (← next).text
  unsupported (keyword ++ " statement")
  skipToBlock
  if keyword == "try" then skipClausesUpTo (← cursor).rest.length

end NoteScript.Rules
