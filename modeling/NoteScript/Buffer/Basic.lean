import NoteScript.Text.Edit
import NoteScript.Text.Space

/-!
# The text written so far

A buffer holds the text written so far, entry by entry in the order of writing. How the text is cut
into entries matters: an operand is taken back by whole entries. A construct remembers where it
started as the number of entries at that time, its mark.
-/

namespace NoteScript

/-- Written entries, the oldest first. -/
abbrev Buffer := List String

namespace Buffer

/-- The text of all entries. -/
def text (b : Buffer) : String := String.join b

/-- Write one more entry. -/
def emit (b : Buffer) (entry : String) : Buffer := b ++ [entry]

/-- The newest entry that is not blank, without outer white space; empty if there is none. -/
def lastWritten (b : Buffer) : String := ((b.reverse.find? (!Text.isBlank ·)).map Text.strip).getD ""

/-- Does an entry start with white space? -/
def startsWithSpace (entry : String) : Bool := entry.toList.head?.any Text.isSpace

/-- Does an entry end with something that a comment has to be kept apart from? -/
def endsWithText (entry : String) : Bool := entry.toList.getLast?.any (!Text.isSpace ·)

/-- Keep what was written behind a mark apart from what stands before it. -/
def separateAt (b : Buffer) (mark : Nat) : Buffer :=
  match b[mark]? with
  | some entry => if startsWithSpace entry then b else b.take mark ++ " " :: b.drop mark
  | none => b

/-- The entries with their newest blank ones dropped, down to a mark at most. -/
def trimTo (b : Buffer) (mark : Nat) : Buffer :=
  b.take mark ++ ((b.drop mark).reverse.dropWhile Text.isBlank).reverse

/-- The blanks at the start of the line that a mark stands on. -/
def indentAt (b : Buffer) (mark : Nat) : String :=
  String.ofList ((Text.lastLine (text (b.take mark)).toList).takeWhile Text.isTabOrBlank)

/-- Does the text behind a mark span lines? -/
def spansLines (b : Buffer) (mark : Nat) : Bool := Text.contains "\n" (text (b.drop mark))

/-- Write a keyword of the construct that started at a mark: on a line of its own, indented like the
construct, if that spans lines, and behind a blank otherwise. -/
def emitClause (b : Buffer) (mark : Nat) (keyword : String) : Buffer :=
  let trimmed := b.trimTo mark
  if trimmed.spansLines mark then trimmed.emit ("\n" ++ trimmed.indentAt mark ++ keyword)
  else trimmed.emit (" " ++ keyword)

/-- The indentation of one level. -/
def indentUnit : String := "  "

/-- Close the body that started at a mark in a scope of its own and put a label behind it, so that no
local of the body is visible at the label. -/
def labelBody (b : Buffer) (mark : Nat) (indent label : String) : Buffer :=
  let trimmed : Buffer := b.trimTo mark
  let body := text (trimmed.drop mark)
  let outer : Buffer := trimmed.take mark
  if Text.contains "\n" body then
    let inner := indent ++ indentUnit
    (outer.emit ("\n" ++ inner ++ "do" ++ Text.replace "\n" ("\n" ++ indentUnit) body)).emit
      ("\n" ++ inner ++ "end\n" ++ inner ++ "::" ++ label ++ "::")
  else outer.emit (" do" ++ body ++ " end ::" ++ label ++ "::")

end Buffer

end NoteScript
