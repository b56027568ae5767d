import NoteScript.Text.Range

/-!
# White space and lines

* `isSpace`: white space in the wide sense, the information separators U+001C to U+001F included.
* `isLineBreak`: the white space that ends a line; a carriage return with the line feed after it is
  one break.
* `strip`, `stripEnd`: a text without its outer white space.
* `lines`: the lines of a text. A break at the very end opens no further line.
-/

namespace NoteScript.Text

/-- White space, as inclusive ranges in increasing order. -/
def spaceRanges : List Range :=
  [(0x9, 0xd), (0x1c, 0x20), (0x85, 0x85), (0xa0, 0xa0), (0x1680, 0x1680), (0x2000, 0x200a),
   (0x2028, 0x2029), (0x202f, 0x202f), (0x205f, 0x205f), (0x3000, 0x3000)]

/-- White space of any kind. -/
def isSpace (c : Char) : Bool := inRanges spaceRanges c

/-- The line breaks, as inclusive ranges in increasing order. -/
def lineBreakRanges : List Range :=
  [(0xa, 0xd), (0x1c, 0x1e), (0x85, 0x85), (0x2028, 0x2029)]

/-- White space that ends a line. -/
def isLineBreak (c : Char) : Bool := inRanges lineBreakRanges c

/-- The blanks inside a line of code: spaces and tabs. -/
def isTabOrBlank (c : Char) : Bool := c == ' ' || c == '\t'

/-! ### Outer white space -/

/-- The characters without leading white space. -/
def trimStart (cs : List Char) : List Char := cs.dropWhile isSpace

/-- The characters without trailing white space. -/
def trimEnd (cs : List Char) : List Char := (cs.reverse.dropWhile isSpace).reverse

/-- The characters without white space at either end. -/
def trim (cs : List Char) : List Char := trimEnd (trimStart cs)

/-- A text without white space at either end. -/
def strip (s : String) : String := String.ofList (trim s.toList)

/-- A text without leading white space. -/
def stripStart (s : String) : String := String.ofList (trimStart s.toList)

/-- A text without trailing white space. -/
def stripEnd (s : String) : String := String.ofList (trimEnd s.toList)

/-- A text of white space only; the empty text is one. -/
def isBlank (s : String) : Bool := s.toList.all isSpace

/-! ### Lines -/

/-- The lines of `cs`, where `line` holds the characters of the current line, the last one first. -/
def linesFrom (line : List Char) : List Char → List (List Char)
  | [] => if line.isEmpty then [] else [line.reverse]
  | '\r' :: '\n' :: rest => line.reverse :: linesFrom [] rest
  | c :: rest => if isLineBreak c then line.reverse :: linesFrom [] rest else linesFrom (c :: line) rest

/-- The lines of a text, without their breaks. -/
def lines (s : String) : List String := (linesFrom [] s.toList).map String.ofList

/-- The number of line feeds in a text. -/
def lineFeeds (s : String) : Nat := s.toList.count '\n'

/-- What follows the last line feed; the whole text when there is none. -/
def lastLine (cs : List Char) : List Char := (cs.reverse.takeWhile (· != '\n')).reverse

/-- The text as a reader that knows one line break only sees it: a carriage return, alone or before a
line feed, counts as a line feed. -/
def unifyLineFeeds : List Char → List Char
  | [] => []
  | '\r' :: '\n' :: rest => '\n' :: unifyLineFeeds rest
  | c :: rest => (if c == '\r' then '\n' else c) :: unifyLineFeeds rest

end NoteScript.Text
