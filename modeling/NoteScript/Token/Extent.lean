import NoteScript.Text.Word
import NoteScript.Token.Basic

/-!
# The extent of a token

`Token.first` gives the kind and the length of the token that a text starts with. It reads the text
itself and one bit of what came before: whether a slash at this place divides. No text is refused;
a character that starts nothing else is a blank token of its own, and a literal that is never closed
runs to the end of the text.
-/

namespace NoteScript.Token

/-- The length of the longest run of `p` at the start. -/
def run (p : Char → Bool) (cs : List Char) : Nat := (cs.takeWhile p).length

/-- The blanks that one blank token gathers. -/
def isInlineSpace (c : Char) : Bool := c == ' ' || c == '\t' || c == '\r'

/-- The letters that may follow the closing slash of a regular expression. -/
def isRegexFlag (c : Char) : Bool := ['g', 'i', 'm', 's', 'u', 'y'].contains c

/-- Hexadecimal digits of either case. -/
def isHexDigit (c : Char) : Bool :=
  c.isDigit || ('a' ≤ c && c ≤ 'f') || ('A' ≤ c && c ≤ 'F')

/-- A character that may start an identifier. -/
def startsName (c : Char) : Bool := Text.isLetter c || c == '_' || c == '$'

/-- A character that may continue an identifier. -/
def continuesName (c : Char) : Bool := Text.isAlphanumeric c || c == '_' || c == '$'

/-- The mark around template literals. -/
def backtick : Char := '\x60'

/-! ### Comments, strings and regular expressions -/

/-- The length of the rest of a block comment, its closing mark included. -/
def blockCommentExtent : List Char → Nat
  | [] => 0
  | '*' :: '/' :: _ => 2
  | _ :: rest => 1 + blockCommentExtent rest

/-- The length of the rest of a string, its closing quote included. A backslash takes the next
character with it. -/
def stringExtent (quote : Char) : List Char → Nat
  | [] => 0
  | c :: rest =>
    if c == quote then 1
    else if c == '\\' then
      match rest with
      | [] => 1
      | _ :: rest' => 2 + stringExtent quote rest'
    else 1 + stringExtent quote rest

/-- The length of the rest of a regular expression up to its closing slash, which does not count
inside square brackets. -/
def regexBodyExtent (inClass : Bool) : List Char → Nat
  | [] => 0
  | c :: rest =>
    if c == '\\' then
      match rest with
      | [] => 1
      | _ :: rest' => 2 + regexBodyExtent inClass rest'
    else if c == '/' && !inClass then 1
    else 1 + regexBodyExtent (c == '[' || (inClass && c != ']')) rest

/-- The length of the rest of a regular expression, its flags included. -/
def regexExtent (cs : List Char) : Nat :=
  let body := regexBodyExtent false cs
  body + run isRegexFlag (cs.drop body)

/-! ### Numbers -/

/-- The length of a fraction with its point. -/
def fractionExtent : List Char → Nat
  | '.' :: rest => 1 + run Char.isDigit rest
  | _ => 0

/-- The length of the digits after the mark of an exponent, with their sign. -/
def exponentDigitsExtent : List Char → Nat
  | c :: rest => if c == '+' || c == '-' then 1 + run Char.isDigit rest else run Char.isDigit (c :: rest)
  | [] => 0

/-- The length of an exponent with its mark. -/
def exponentExtent : List Char → Nat
  | c :: rest => if c == 'e' || c == 'E' then 1 + exponentDigitsExtent rest else 0
  | [] => 0

/-- The length of a decimal number: digits, fraction, exponent, each of which may be missing. -/
def decimalExtent (cs : List Char) : Nat :=
  let whole := run Char.isDigit cs
  let fraction := fractionExtent (cs.drop whole)
  whole + fraction + exponentExtent (cs.drop (whole + fraction))

/-- The length of a number, hexadecimal or decimal. -/
def numberExtent : List Char → Nat
  | '0' :: 'x' :: rest => 2 + run isHexDigit rest
  | '0' :: 'X' :: rest => 2 + run isHexDigit rest
  | cs => decimalExtent cs

/-! ### Templates -/

/-- A text part, unless it is empty. The characters come with the last one first. -/
def textPart (held : List Char) : List TemplatePart :=
  if held.isEmpty then [] else [.text (String.ofList held.reverse)]

/-- The parts and the length of the rest of a template literal, its closing mark included. The first
number counts the braces open in the current embedded expression, zero in literal text; the first list
has the characters of the current part, the last one first. -/
def templateBody : Nat → List Char → List Char → List TemplatePart × Nat
  | 0, held, [] => (textPart held, 0)
  | 0, held, '$' :: '\x7b' :: rest =>
    let (parts, n) := templateBody 1 [] rest
    (textPart held ++ parts, 2 + n)
  | 0, held, '\\' :: c :: rest =>
    let (parts, n) := templateBody 0 (c :: '\\' :: held) rest
    (parts, 2 + n)
  | 0, held, c :: rest =>
    if c == backtick then (textPart held, 1)
    else
      let (parts, n) := templateBody 0 (c :: held) rest
      (parts, 1 + n)
  | _ + 1, held, [] => ([.expr (String.ofList held.reverse)], 0)
  | depth + 1, held, c :: rest =>
    if c == '\x7d' && depth == 0 then
      let (parts, n) := templateBody 0 [] rest
      (.expr (String.ofList held.reverse) :: parts, 1 + n)
    else
      let depth' := if c == '\x7b' then depth + 2 else if c == '\x7d' then depth else depth + 1
      let (parts, n) := templateBody depth' (c :: held) rest
      (parts, 1 + n)

/-! ### Operators and punctuation -/

/-- The operators of more than one character, longest first. -/
def longOperators : List (List Char) :=
  ["===", "!==", "=>", "&&", "||", "==", "!=", ">=", "<=", "+=", "-=", "++", "--"].map String.toList

/-- The operators of one character. -/
def shortOperators : List Char := ['+', '-', '*', '/', '%', '=', '!', '<', '>', '.']

/-- The punctuation. -/
def punctuation : List Char := ['(', ')', '[', ']', '\x7b', '\x7d', ',', ';', ':', '?']

/-- The kind and the length of an operator or a punctuation mark, or of a blank token for a character
that starts nothing else. -/
def symbol (c : Char) (rest : List Char) : Kind × Nat :=
  match longOperators.find? (·.isPrefixOf (c :: rest)) with
  | some op => (.operator, op.length)
  | none =>
    if shortOperators.contains c then (.operator, 1)
    else if punctuation.contains c then (.punctuation, 1)
    else (.space, 1)

/-! ### All tokens -/

/-- The kind and the length of the token that `c :: rest` starts with. -/
def first (divides : Bool) (c : Char) (rest : List Char) : Kind × Nat :=
  if c == '\n' then (.newline, 1)
  else if isInlineSpace c then (.space, run isInlineSpace (c :: rest))
  else if c == '/' && rest.head? == some '/' then (.comment, run (· != '\n') (c :: rest))
  else if c == '/' && rest.head? == some '*' then (.comment, 2 + blockCommentExtent rest.tail)
  else if c == backtick then
    let (parts, n) := templateBody 0 [] rest
    (.template parts, 1 + n)
  else if c == '\'' || c == '"' then (.string, 1 + stringExtent c rest)
  else if c == '/' && !divides then (.regex, 1 + regexExtent rest)
  else if c.isDigit || (c == '.' && rest.head?.any Char.isDigit) then (.number, numberExtent (c :: rest))
  else if startsName c then (.identifier, run continuesName (c :: rest))
  else symbol c rest

end NoteScript.Token
