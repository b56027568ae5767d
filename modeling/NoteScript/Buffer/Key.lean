import NoteScript.Buffer.Basic
import NoteScript.Literal
import NoteScript.Text.Word

/-!
# Keys of tables

A colon behind a key inside braces separates a key from its value. The key is then the entry written
last: a name stays unless Lua keeps it for itself, and a string or a number is put in brackets.
-/

namespace NoteScript.Buffer

/-- Does a text, the last character first, leave a brace open, where `depth` braces are closed behind
this place? -/
def braceOpen (depth : Nat) : List Char → Bool
  | [] => false
  | c :: rest =>
    if c == '\x7d' then braceOpen (depth + 1) rest
    else if c == '\x7b' then
      match depth with
      | 0 => true
      | k + 1 => braceOpen k rest
    else braceOpen depth rest

/-- Words that Lua keeps for itself. -/
def luaKeywords : List String :=
  ["and", "break", "do", "else", "elseif", "end", "false", "for", "function", "goto", "if", "in",
   "local", "nil", "not", "or", "repeat", "return", "then", "true", "until", "while"]

/-- A text that can be a key: a name, a string or a number. -/
def isKey (key : String) : Bool := Text.isIdentifier key || Literal.isQuoted key || Text.isDigitText key

/-- The entry of a key in a table. -/
def keyEntry (entry : String) : String :=
  let key := Text.strip entry
  if Text.isIdentifier key then
    if luaKeywords.contains key then "[\"" ++ key ++ "\"]" else entry
  else "[" ++ key ++ "]"

/-- Make the entry written last the key of a table, if it can be one and a brace is open in front of
it. -/
def makeKey? (b : Buffer) : Option Buffer :=
  match b.reverse.dropWhile Text.isBlank with
  | [] => none
  | entry :: older =>
    if isKey (Text.strip entry) && braceOpen 0 (text older.reverse).toList.reverse then
      some (older.reverse ++ keyEntry entry :: (b.reverse.takeWhile Text.isBlank).reverse)
    else none

end NoteScript.Buffer
