import NoteScript.Text.Space

/-!
# Tokens of a script

A script is a flat list of tokens. White space and comments are tokens too (`isTrivia`), so that a
token list keeps the layout of its source. A template literal carries its parts, the literal text
between the embedded expressions still in its raw spelling.
-/

namespace NoteScript

/-- One part of a template literal. -/
inductive TemplatePart where
  /-- Literal text, escapes not yet read. -/
  | text (raw : String)
  /-- The source of an embedded expression. -/
  | expr (source : String)
deriving DecidableEq

/-- What a token is. -/
inductive Token.Kind where
  | identifier
  | number
  | string
  | template (parts : List TemplatePart)
  | regex
  | operator
  | punctuation
  | newline
  | space
  | comment
  | endOfText
deriving DecidableEq

/-- A token and its text in the source. -/
structure Token where
  kind : Token.Kind
  text : String
deriving DecidableEq

namespace Token

/-- The token that closes a token list. -/
def eof : Token := ⟨.endOfText, ""⟩

/-- White space, line feeds and comments. -/
def isTrivia (t : Token) : Bool :=
  match t.kind with
  | .space | .newline | .comment => true
  | _ => false

/-- The token that closes a token list, or any like it. -/
def isEof (t : Token) : Bool := t.kind == .endOfText

/-- An identifier of any spelling. -/
def isIdentifier (t : Token) : Bool := t.kind == .identifier

/-- A line feed. -/
def isNewline (t : Token) : Bool := t.kind == .newline

/-- A quoted string. -/
def isString (t : Token) : Bool := t.kind == .string

/-- A string or a template literal. -/
def isStringLike (t : Token) : Bool :=
  match t.kind with
  | .string | .template _ => true
  | _ => false

/-- The identifier `word`. -/
def isWord (t : Token) (word : String) : Bool := t.kind == .identifier && t.text == word

/-- Punctuation spelled as one of `texts`. -/
def isPunct (t : Token) (texts : List String) : Bool := t.kind == .punctuation && texts.contains t.text

/-- An operator spelled as one of `texts`. -/
def isOperator (t : Token) (texts : List String) : Bool := t.kind == .operator && texts.contains t.text

/-- The punctuation that opens a group. -/
def openers : List String := ["(", "[", "\x7b"]

/-- The punctuation that closes a group. -/
def closers : List String := [")", "]", "\x7d"]

/-- An opening bracket of any shape. -/
def isOpener (t : Token) : Bool := t.isPunct openers

/-- A closing bracket of any shape. -/
def isCloser (t : Token) : Bool := t.isPunct closers

/-- After an identifier, a number, a closing round or square bracket or an update operator a slash
divides; anywhere else it starts a regular expression. -/
def endsOperand (t : Token) : Bool :=
  match t.kind with
  | .identifier | .number => true
  | _ => t.isPunct [")", "]"] || t.isOperator ["++", "--"]

/-- The number of line feeds in a token. -/
def lineFeeds (t : Token) : Nat := Text.lineFeeds t.text

/-- The number of characters in a list of tokens. -/
def textSize : List Token → Nat
  | [] => 0
  | t :: rest => t.text.length + textSize rest

/-- The source text of a list of tokens. -/
def sourceText (tokens : List Token) : String := String.join (tokens.map (·.text))

/-- Does a list of tokens hold anything but trivia? -/
def hasContent (tokens : List Token) : Bool := tokens.any (!·.isTrivia)

/-- A list of tokens without its trivia. -/
def significant (tokens : List Token) : List Token := tokens.filter (!·.isTrivia)

end Token

end NoteScript
