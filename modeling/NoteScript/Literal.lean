import NoteScript.Text.Edit
import NoteScript.Text.Numeral

/-!
# Strings and comments in Lua

* `quote`: any text as a double-quoted Lua string.
* `body`: the inside of a script's string or template, so that it can stand between double quotes in
  Lua. Escapes that Lua reads the same way stay, a code point escape gets braces, and any other escape
  keeps its character only.
* `ofString`: a whole string literal of a script.
* `comment`: a comment of a script as a Lua comment.
-/

namespace NoteScript.Literal

/-! ### Any text -/

/-- A character between double quotes. -/
def quoteChar (c : Char) : List Char :=
  match c with
  | '\\' => ['\\', '\\']
  | '"' => ['\\', '"']
  | '\n' => ['\\', 'n']
  | '\r' => ['\\', 'r']
  | '\t' => ['\\', 't']
  | c => [c]

/-- A text as a double-quoted Lua string. -/
def quote (s : String) : String := String.ofList ('"' :: s.toList.flatMap quoteChar ++ ['"'])

/-! ### The inside of a script's string -/

/-- The characters which keep their backslash: Lua gives the pair a meaning of its own. -/
def keepsBackslash (c : Char) : Bool :=
  ['a', 'b', 'f', 'n', 'r', 't', 'v', 'x', 'z', '\\', '"', '\n'].contains c || c.isDigit

/-- A character that stands without a backslash. -/
def bareChar (c : Char) : List Char :=
  match c with
  | '"' => ['\\', '"']
  | '\n' => ['\\', 'n']
  | '\r' => ['\\', 'r']
  | c => [c]

/-- The Lua form of an escape, given what follows the backslash, and the number of characters that it
takes after the backslash. -/
def escape : List Char → List Char × Nat
  | [] => (['\\', '\\'], 0)
  | 'u' :: '\x7b' :: rest =>
    let digits := (rest.takeWhile (· != '\x7d')).length
    ('\\' :: 'u' :: '\x7b' :: rest.take (digits + 1), digits + 3)
  | 'u' :: rest => ('\\' :: 'u' :: '\x7b' :: rest.take 4 ++ ['\x7d'], 5)
  | c :: _ => (if keepsBackslash c then ['\\', c] else [c], 1)

/-- The Lua form of the inside of a string, where `skip` characters belong to an escape already
written. -/
def bodyFrom (skip : Nat) : List Char → List Char
  | [] => []
  | c :: rest =>
    match skip with
    | k + 1 => bodyFrom k rest
    | 0 =>
      if c == '\\' then (escape rest).1 ++ bodyFrom (escape rest).2 rest
      else bareChar c ++ bodyFrom 0 rest

/-- The Lua form of the inside of a string. -/
def body (raw : String) : String := String.ofList (bodyFrom 0 raw.toList)

/-- What stands between the quotes of a string literal. The closing quote may be missing. -/
def content (literal : List Char) : List Char :=
  match literal with
  | [] => []
  | mark :: rest => if rest.getLast? == some mark then rest.dropLast else rest

/-- The Lua form of a string literal between either kind of quotes. -/
def ofString (literal : String) : String :=
  String.ofList ('"' :: bodyFrom 0 (content literal.toList) ++ ['"'])

/-- Does the rest of a text close a double-quoted string at its very end? -/
def closesQuote : List Char → Bool
  | [] => false
  | '\\' :: c :: rest => c != '\n' && closesQuote rest
  | c :: rest => if c == '"' then rest.isEmpty else c != '\\' && closesQuote rest

/-- A text that is one double-quoted Lua string and nothing else. -/
def isQuoted (s : String) : Bool :=
  match s.toList with
  | '"' :: rest => closesQuote rest
  | _ => false

/-! ### Comments -/

/-- A text inside a block comment: the closing mark is broken up. -/
def inBlockComment (s : String) : String := Text.replace "]]" "] ]" s

/-- A line or block comment as a Lua comment. A line comment that would open a Lua block comment gets a
blank; the closing mark of a block comment may be missing. -/
def comment (source : String) : String :=
  let inside := String.ofList (source.toList.drop 2)
  if Text.beginsWith "//" source then
    if Text.beginsWith "[" inside then "-- " ++ inside else "--" ++ inside
  else
    let inside :=
      if Text.endsWith "*/" source && 4 ≤ source.length then
        String.ofList (inside.toList.take (inside.length - 2))
      else inside
    "--[[" ++ inBlockComment inside ++ "]]"

/-! ### Replacement strings -/

/-- Group numbers after a dollar sign get a percent sign instead. -/
def groupNumbers : List Char → List Char
  | [] => []
  | c :: rest => (if c == '$' && rest.head?.any Text.isDecimal then '%' else c) :: groupNumbers rest

/-- The inside of a Lua string as a replacement: percent signs are doubled, `$&` stands for the whole
match and `$1` for a group. -/
def replacementBody (inside : String) : String :=
  let marked := Text.replace "$&" "%0" (Text.replace "%" "%%" inside)
  String.ofList (groupNumbers marked.toList)

end NoteScript.Literal
