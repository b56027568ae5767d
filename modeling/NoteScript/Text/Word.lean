import NoteScript.Text.Letter
import NoteScript.Text.Numeral

/-!
# Words

Word characters are letters, numerals and the underscore. The recognisers below ask whether a whole
text is made of a class of characters.
-/

namespace NoteScript.Text

/-- Letters and numerals of any script. -/
def isAlphanumeric (c : Char) : Bool := isLetter c || isNumeral c

/-- Letters, numerals and the underscore. -/
def isWord (c : Char) : Bool := isAlphanumeric c || c == '_'

/-- The ASCII letters and the underscore, which may start a name. -/
def isNameStart (c : Char) : Bool := c.isAlpha || c == '_'

/-- A non-empty text of word characters, points and colons: a name or a number that binds tighter than
any operator. -/
def isSimpleOperand (s : String) : Bool :=
  !s.isEmpty && s.toList.all fun c => isWord c || c == '.' || c == ':'

/-- A name that starts like an ASCII identifier, followed by word characters and points. -/
def isSimpleReceiver (s : String) : Bool :=
  match s.toList with
  | [] => false
  | c :: rest => isNameStart c && rest.all fun d => isWord d || d == '.'

/-- An identifier, the dollar sign included among its characters. -/
def isIdentifier (s : String) : Bool :=
  match s.toList with
  | [] => false
  | c :: rest => (isNameStart c || c == '$') && rest.all fun d => isWord d || d == '$'

/-- A non-empty text of digit signs. -/
def isDigitText (s : String) : Bool := !s.isEmpty && s.toList.all isDigitSign

end NoteScript.Text
