import NoteScript.Buffer.Basic
import NoteScript.Text.Word

/-!
# Taking an operand back

A postfix form needs the operand that is already written. `Buffer.takeOperand` walks back over the
entries, with `()` and `[]` balanced, and stops

* at an entry after which a new expression starts: an assignment, a keyword, a comma, a line feed, the
  head of a body;
* at a bracket that opens before the operand;
* at white space or a binary operator, if operators end the operand.

White space in front of an entry that starts with a point or a colon never ends the operand: a chain of
members may run over several lines. Blank entries at the start of what was taken go back.
-/

namespace NoteScript.Buffer

/-! ### Where an expression starts -/

/-- Entries after which a new expression starts. -/
def statementWords : List String := ["=", "local", "return", "end", "then", "do", "else", ","]

/-- Operators that end the operand of a postfix form. -/
def binaryOperators : List String :=
  ["and", "or", "not", "+", "-", "*", "/", "%", "==", "~=", "<", ">", "<=", ">=", ".."]

/-- A text that ends in an assignment, not in a comparison. -/
def endsAssignment (entry : List Char) : Bool :=
  match entry.reverse with
  | '=' :: c :: _ => !(['~', '<', '>', '=', '!'].contains c)
  | ['='] => true
  | _ => false

/-- Does a text, the last character first, end in `word`, with no word character in front of it? -/
def endsInWord (word : String) (isBoundary : Char → Bool) (reversed : List Char) : Bool :=
  word.toList.reverse.isPrefixOf reversed && (reversed.drop word.length).head?.all isBoundary

/-- The head of a function without its parameter list, the last character first. -/
def endsFunctionHead (reversed : List Char) : Bool :=
  let isFunction := endsInWord "function" (!Text.isWord ·)
  let head := reversed.dropWhile Text.isSpace
  let name := head.takeWhile fun c => Text.isWord c || c == '.' || c == ':'
  let front := head.drop name.length
  isFunction head
    || (!name.isEmpty && front.head?.any Text.isSpace && isFunction (front.dropWhile Text.isSpace))

/-- A text that ends in the parameter list of a function. -/
def endsParameters (entry : List Char) : Bool :=
  match entry.reverse with
  | ')' :: back =>
    let inside := back.takeWhile fun c => c != '(' && c != ')'
    match back.drop inside.length with
    | '(' :: head => endsFunctionHead head
    | _ => false
  | _ => false

/-- A text after which a body starts. -/
def opensBody (entry : List Char) : Bool :=
  ["return", "then", "do", "else", "repeat"].any (endsInWord · Text.isSpace entry.reverse)
    || endsParameters entry

/-- An entry that ends the operand behind it. -/
def isBoundary (operatorsEnd : Bool) (entry : String) : Bool :=
  let bare := Text.strip entry
  if Text.contains "\n" entry then true
  else if bare.isEmpty then operatorsEnd
  else if statementWords.contains bare || endsAssignment bare.toList || opensBody bare.toList then true
  else operatorsEnd && binaryOperators.contains bare

/-! ### The walk back -/

/-- The round and square brackets closed less those opened in an entry. -/
def closedIn : List Char → Int
  | [] => 0
  | c :: rest => (if c == ')' || c == ']' then 1 else if c == '(' || c == '[' then -1 else 0) + closedIn rest

/-- An entry that continues a chain of members. -/
def startsMember (entry : String) : Bool :=
  (Text.stripStart entry).toList.head?.any fun c => c == '.' || c == ':'

/-- Take further entries back. `depth` brackets are closed and not opened yet, `member` says whether
the oldest entry taken that is not blank continues a chain, `taken` has the entries taken in order, and
the list has those left, the newest first. -/
def walkBack (operatorsEnd : Bool) (depth : Int) (member : Bool) (taken : List String) :
    List String → List String × List String
  | [] => (taken, [])
  | entry :: older =>
    let blank := Text.isBlank entry
    if depth == 0 && !(member && blank) && isBoundary operatorsEnd entry then (taken, entry :: older)
    else
      let depth' := depth + closedIn entry.toList
      if depth' < 0 then (taken, entry :: older)
      else walkBack operatorsEnd depth' (if blank then member else startsMember entry) (entry :: taken) older

/-- The entries of the operand written last, and the entries that stay, the newest first. Blank entries
behind the operand are dropped. -/
def operandEntries (b : Buffer) (operatorsEnd : Bool) : List String × List String :=
  match b.reverse.dropWhile Text.isBlank with
  | [] => ([], [])
  | last :: older =>
    if closedIn last.toList < 0 then ([], last :: older)
    else
      let (taken, left) := walkBack operatorsEnd (closedIn last.toList) (startsMember last) [last] older
      (taken.dropWhile Text.isBlank, (taken.takeWhile Text.isBlank).reverse ++ left)

/-- Take back the operand written last: its text without outer white space, and the buffer without
it. -/
def takeOperand (b : Buffer) (operatorsEnd : Bool) : String × Buffer :=
  let (taken, left) := b.operandEntries operatorsEnd
  (Text.strip (text taken), left.reverse)

end NoteScript.Buffer
