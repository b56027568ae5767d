import NoteScript.Text.Word

/-!
# Strings and comments in finished code

A pass over finished code leaves strings and comments alone. `Glyph.mark` marks the characters of a
code text which stand in one of the spans below; a span ends before the next one is looked for.

* A double-quoted string within one line; a backslash takes the next character with it.
* A block comment, up to the nearest closing mark.
* A line comment. Two minus signs right behind a word or a closing bracket are an operator instead.
-/

namespace NoteScript.Polish

/-- A character of finished code, and whether it stands in a string or a comment. -/
structure Glyph where
  char : Char
  guarded : Bool
deriving DecidableEq

/-- The length of the rest of a string with its closing quote, if it closes within the line. -/
def stringSpan : List Char → Option Nat
  | [] => none
  | '\\' :: _ :: rest => (stringSpan rest).map (2 + ·)
  | c :: rest =>
    if c == '"' then some 1
    else if c == '\\' || c == '\n' then none
    else (stringSpan rest).map (1 + ·)

/-- The length of the rest of a block comment with its closing mark, if there is one. -/
def blockSpan : List Char → Option Nat
  | [] => none
  | ']' :: ']' :: _ => some 2
  | _ :: rest => (blockSpan rest).map (1 + ·)

/-- The characters which end a word or an index, so that two minus signs behind them are an
operator. -/
def endsTarget (c : Char) : Bool := Text.isWord c || c == ']' || c == ')'

/-- The length of a line comment, given what follows its two minus signs; zero if the character before
makes them an operator. -/
def lineSpan (before : Option Char) (rest : List Char) : Nat :=
  if before.any endsTarget then 0 else 2 + (rest.takeWhile (· != '\n')).length

/-- The length of the span that starts at a place, zero if none does. -/
def spanAt (before : Option Char) : List Char → Nat
  | '"' :: rest => ((stringSpan rest).map (1 + ·)).getD 0
  | '-' :: '-' :: '[' :: '[' :: rest =>
    ((blockSpan rest).map (4 + ·)).getD (lineSpan before ('[' :: '[' :: rest))
  | '-' :: '-' :: rest => lineSpan before rest
  | _ => 0

/-- Mark the characters from a place on, where `left` of them belong to a span already begun. -/
def markFrom (before : Option Char) (left : Nat) : List Char → List Glyph
  | [] => []
  | c :: rest =>
    match left with
    | k + 1 => ⟨c, true⟩ :: markFrom (some c) k rest
    | 0 =>
      match spanAt before (c :: rest) with
      | k + 1 => ⟨c, true⟩ :: markFrom (some c) k rest
      | 0 => ⟨c, false⟩ :: markFrom (some c) 0 rest

/-- A code text with its strings and comments marked. -/
def mark (code : List Char) : List Glyph := markFrom none 0 code

/-- The characters of a marked text. -/
def unmark (glyphs : List Glyph) : List Char := glyphs.map (·.char)

end NoteScript.Polish
