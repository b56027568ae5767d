import NoteScript.Token.Basic

/-!
# Pairing of brackets

`checkBrackets` walks over the tokens with the brackets still open, the innermost first. It stops at
the first bracket that closes nothing or the wrong thing; at the end the innermost bracket still open
is reported, with the line it stands on.
-/

namespace NoteScript

/-- Why the brackets of a token list do not pair. -/
inductive BracketFault where
  /-- A closing bracket with nothing open. -/
  | stray (closer : String) (line : Nat)
  /-- A closing bracket that does not fit the innermost open one. -/
  | crossed (closer opener : String) (openedAt line : Nat)
  /-- An opening bracket that is never closed. -/
  | unclosed (opener : String) (line : Nat)
deriving DecidableEq

namespace BracketFault

/-- The line that a fault is reported on. -/
def line : BracketFault → Nat
  | .stray _ line => line
  | .crossed _ _ _ line => line
  | .unclosed _ line => line

/-- What is wrong, without the place. -/
def description : BracketFault → String
  | .stray closer _ => s!"unexpected '{closer}'"
  | .crossed closer opener openedAt _ => s!"'{closer}' does not close '{opener}' opened on line {openedAt}"
  | .unclosed opener _ => s!"unmatched '{opener}'"

/-- The text of a fault. -/
def message (f : BracketFault) : String := s!"{f.description} (line {f.line})"

end BracketFault

namespace Token

/-- A bracket still open, with the line it stands on. -/
structure OpenBracket where
  opener : String
  line : Nat
deriving DecidableEq

/-- The opening bracket that a closing one answers. -/
def openerOf : String → Option String
  | ")" => some "("
  | "]" => some "["
  | "\x7d" => some "\x7b"
  | _ => none

/-- Check the pairing from a place on, where `pending` holds the open brackets, the innermost first,
and `line` is the current line. -/
def checkBracketsFrom (pending : List OpenBracket) (line : Nat) : List Token → Except BracketFault Unit
  | [] =>
    match pending with
    | [] => .ok ()
    | bracket :: _ => .error (.unclosed bracket.opener bracket.line)
  | t :: rest =>
    if t.isOpener then checkBracketsFrom (⟨t.text, line⟩ :: pending) (line + t.lineFeeds) rest
    else if t.isCloser then
      match pending with
      | [] => .error (.stray t.text line)
      | bracket :: outer =>
        if openerOf t.text == some bracket.opener then checkBracketsFrom outer (line + t.lineFeeds) rest
        else .error (.crossed t.text bracket.opener bracket.line line)
    else checkBracketsFrom pending (line + t.lineFeeds) rest

/-- Check that the brackets of a token list pair. -/
def checkBrackets (tokens : List Token) : Except BracketFault Unit := checkBracketsFrom [] 1 tokens

/-- The brackets opened less the brackets closed. -/
def bracketDepth : List Token → Int
  | [] => 0
  | t :: rest => (if t.isOpener then 1 else if t.isCloser then -1 else 0) + bracketDepth rest

end Token

end NoteScript
