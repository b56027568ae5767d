import NoteScript.Cursor.Basic

/-!
# What stops a run of the rules

Most of what the rules cannot express is only degraded. A run stops when a group or a block is not
where it has to be or is never closed. A fault has its place in the token list that was read, and the
line is that of the place in this list.
-/

namespace NoteScript

/-- What stops a run, with the place it is reported at. -/
inductive Fault where
  /-- A group has to start here and does not. -/
  | expected (opener : String) (place : Cursor)
  /-- A group is never closed; the place is that of its opener. -/
  | unterminated (opener : String) (place : Cursor)
  /-- A block is never closed; the place is that of its brace. -/
  | unterminatedBlock (place : Cursor)
  /-- The condition behind a `do` block is missing. -/
  | missingWhile (place : Cursor)
  /-- The rules are nested deeper than the budget of the run allows. -/
  | tooDeep
deriving DecidableEq

namespace Fault

/-- The place that a fault is reported at. -/
def place? : Fault → Option Cursor
  | .expected _ place => some place
  | .unterminated _ place => some place
  | .unterminatedBlock place => some place
  | .missingWhile place => some place
  | .tooDeep => none

/-- The line that a fault is reported on. -/
def line? (f : Fault) : Option Nat := f.place?.map Cursor.line

/-- What is wrong, without the place. -/
def description : Fault → String
  | .expected opener _ => s!"expected '{opener}'"
  | .unterminated opener _ => s!"unterminated '{opener}'"
  | .unterminatedBlock _ => "unterminated block"
  | .missingWhile _ => "expected 'while' after do-block"
  | .tooDeep => "nesting too deep"

/-- The text of a fault. -/
def message (f : Fault) : String :=
  match f.line? with
  | some line => s!"{f.description} (line {line})"
  | none => f.description

end Fault

end NoteScript
