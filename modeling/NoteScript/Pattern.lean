import NoteScript.Text.Edit
import NoteScript.Text.Numeral
import NoteScript.Token.Extent

/-!
# Lua patterns from regular expressions

`Pattern.ofRegex` reads a regular expression literal and writes the Lua pattern nearest to it:
shorthands, classes, anchors, repetitions (small counts are unrolled) and groups. Alternation has no
counterpart, so a pattern that uses it is not converted; nor is a text that is no literal.
-/

namespace NoteScript

namespace Pattern

/-- Characters with a meaning in Lua patterns. -/
def isMagic (c : Char) : Bool :=
  ['(', ')', '.', '%', '+', '-', '*', '?', '[', ']', '^', '$'].contains c

/-- A character that stands for itself in a pattern. -/
def escapeChar (c : Char) : List Char := if isMagic c then ['%', c] else [c]

/-- A text that stands for itself in a pattern. -/
def escape (s : String) : String := String.ofList (s.toList.flatMap escapeChar)

/-! ### The parts of a literal -/

/-- The body and the flags of a literal: the closing slash is the last one, the body is not empty, and
one line feed may follow the flags. -/
def splitLiteral (literal : List Char) : Option (List Char × List Char) :=
  match literal with
  | '/' :: rest =>
    let tail := (rest.reverse.takeWhile (· != '/')).reverse
    let flags := if tail.getLast? == some '\n' then tail.dropLast else tail
    match rest.reverse.dropWhile (· != '/') with
    | _ :: b :: body => if flags.all Token.isRegexFlag then some ((b :: body).reverse, flags) else none
    | _ => none
  | _ => none

/-- The shorthand classes outside square brackets. -/
def shorthand? : Char → Option String
  | 'w' => some "[%w_]"
  | 'W' => some "[^%w_]"
  | 'd' => some "%d"
  | 'D' => some "%D"
  | 's' => some "%s"
  | 'S' => some "%S"
  | _ => none

/-- An escaped character outside square brackets; a word boundary is dropped. -/
def escapedPiece (c : Char) : List String :=
  match shorthand? c with
  | some piece => [piece]
  | none =>
    match c with
    | 'b' => []
    | 'n' => ["\n"]
    | 't' => ["\t"]
    | 'r' => ["\r"]
    | c => [String.ofList (escapeChar c)]

/-! ### Classes -/

/-- An escaped character between square brackets. -/
def classEscape : Char → List Char
  | 'w' => ['%', 'w', '_']
  | 'd' => ['%', 'd']
  | 's' => ['%', 's']
  | c => escapeChar c

/-- The members of a class up to its closing bracket, and their length in the source with that
bracket. -/
def classMembers : List Char → List Char × Nat
  | [] => ([], 0)
  | '\\' :: c :: rest =>
    let (members, n) := classMembers rest
    (classEscape c ++ members, 2 + n)
  | c :: rest =>
    if c == ']' then ([], 1)
    else
      let (members, n) := classMembers rest
      (if c == '\\' then members else if c == '%' then '%' :: '%' :: members else c :: members, 1 + n)

/-- The members of a class; a closing bracket that comes first is a member. -/
def classBody : List Char → List Char × Nat
  | ']' :: rest =>
    let (members, n) := classMembers rest
    ('%' :: ']' :: members, 1 + n)
  | cs => classMembers cs

/-- A class, given what follows its opening bracket, and its length in the source after that
bracket. -/
def classPiece : List Char → String × Nat
  | '^' :: rest =>
    let (members, n) := classBody rest
    (String.ofList ('[' :: '^' :: members ++ [']']), 1 + n)
  | cs =>
    let (members, n) := classBody cs
    (String.ofList ('[' :: members ++ [']']), n)

/-! ### Counted repetition -/

/-- A counted repetition: at least `low` times, at most `high` times if there is a limit. -/
structure Repetition where
  low : Nat
  high : Option Nat

/-- A counted repetition, given what follows its opening brace, and its length in the source after that
brace. -/
def repetition? (cs : List Char) : Option (Repetition × Nat) :=
  let lowDigits := cs.takeWhile Text.isDecimal
  let low := Text.decimalValue lowDigits
  if lowDigits.isEmpty then none
  else
    match cs.dropWhile Text.isDecimal with
    | '\x7d' :: _ => some (⟨low, some low⟩, lowDigits.length + 1)
    | ',' :: rest =>
      let highDigits := rest.takeWhile Text.isDecimal
      let high := if highDigits.isEmpty then none else some (Text.decimalValue highDigits)
      if (rest.dropWhile Text.isDecimal).head? == some '\x7d' then
        some (⟨low, high⟩, lowDigits.length + highDigits.length + 2)
      else none
    | _ => none

/-- A piece repeated as counted. -/
def Repetition.unroll (r : Repetition) (piece : String) : String :=
  match r.low, r.high with
  | 1, none => piece ++ "+"
  | 0, none => piece ++ "*"
  | low, none => Text.copies low piece ++ piece ++ "*"
  | low, some high => Text.copies low piece ++ Text.copies (high - low) (piece ++ "?")

/-! ### The body of a literal -/

/-- What one step of the conversion does with the pieces written so far, the last one first, and how
many further characters of the source it takes. -/
inductive Step where
  /-- Write further pieces. -/
  | write (pieces : List String) (taken : Nat)
  /-- Put another piece in the place of the last one. -/
  | repeatLast (r : Repetition) (taken : Nat)
  /-- The rest of the body counts for nothing. -/
  | stop
  /-- There is no Lua pattern for this body. -/
  | fail

/-- The step for the character `c` with `rest` behind it. A lazy star becomes a minus sign; a lazy plus
or question mark keeps its greedy form. -/
def step (c : Char) (rest : List Char) : Step :=
  let lazy := rest.head? == some '?'
  match c with
  | '\\' =>
    match rest with
    | [] => .stop
    | d :: _ => .write (escapedPiece d) 1
  | '[' =>
    let (piece, n) := classPiece rest
    .write [piece] n
  | '(' => .write ["("] (if ['?', ':'].isPrefixOf rest then 2 else 0)
  | '\x7b' =>
    match repetition? rest with
    | some (r, n) => .repeatLast r n
    | none => .write ["\x7b"] 0
  | '|' => .fail
  | '*' => if lazy then .write ["-"] 1 else .write ["*"] 0
  | '+' => .write ["+"] (if lazy then 1 else 0)
  | '?' => .write ["?"] (if lazy then 1 else 0)
  | ')' => .write [")"] 0
  | '.' => .write ["."] 0
  | '^' => .write ["^"] 0
  | '$' => .write ["$"] 0
  | c => .write [String.ofList (escapeChar c)] 0

/-- Convert a body, where `pieces` holds what is written so far, the last piece first, and `skip`
characters belong to a step already done. -/
def convertFrom (pieces : List String) (skip : Nat) : List Char → Option (List String)
  | [] => some pieces
  | c :: rest =>
    match skip with
    | k + 1 => convertFrom pieces k rest
    | 0 =>
      match step c rest with
      | .write new taken => convertFrom (new ++ pieces) taken rest
      | .repeatLast r taken => convertFrom (r.unroll (pieces.headD "") :: pieces.tail) taken rest
      | .stop => some pieces
      | .fail => none

/-- The Lua pattern for the body of a literal. -/
def ofBody (body : List Char) : Option String :=
  (convertFrom [] 0 body).map fun pieces => String.join pieces.reverse

end Pattern

/-- What became of a regular expression literal: its Lua pattern, if there is one, and whether it asks
for all matches. -/
structure Pattern where
  lua : Option String
  isGlobal : Bool
deriving DecidableEq

/-- Convert a regular expression literal, slashes and flags included. -/
def Pattern.ofRegex (literal : String) : Pattern :=
  match Pattern.splitLiteral literal.toList with
  | none => ⟨none, false⟩
  | some (body, flags) => ⟨Pattern.ofBody body, flags.contains 'g'⟩

end NoteScript
