import NoteScript.Polish.Guarded
import NoteScript.Text.Space

/-!
# Passes over finished code

The rules leave a few forms which are easier to spell out on the finished text:

* `compound`: `x += y` becomes `x = x + y`, and so do `-=` and the joining of strings `..=`;
* `increments`: `x++ ` becomes `x = x + 1` and `x-- ` becomes `x = x - 1`;
* `indices`: `a[0]` becomes `a[1]`;
* `whitespace`: no blanks before a line feed, no more than one empty line in a row, no white space at
  either end.

Matches are taken from left to right and do not overlap. A match whose operator stands in a string or a
comment stays as it is.
-/

namespace NoteScript

namespace Polish

/-- A match: what is written instead, and how many characters it takes after its first. -/
structure Hit where
  text : List Char
  taken : Nat

/-- Write the replacement of every match. `before` is the character in front, and `skip` characters
belong to a match already written. -/
def replaceHits (hit? : Option Char → List Glyph → Option Hit) (before : Option Char) (skip : Nat) :
    List Glyph → List Char
  | [] => []
  | g :: rest =>
    match skip with
    | k + 1 => replaceHits hit? (some g.char) k rest
    | 0 =>
      match hit? before (g :: rest) with
      | some h => h.text ++ replaceHits hit? (some g.char) h.taken rest
      | none => g.char :: replaceHits hit? (some g.char) 0 rest

/-- Run a pass over a code text. -/
def replaceIn (hit? : Option Char → List Glyph → Option Hit) (code : List Char) : List Char :=
  replaceHits hit? none 0 (mark code)

/-- A match of `size` characters at the start of `glyphs`, which is written as it is when its operator
is guarded. -/
def Hit.guardedBy (guarded : Bool) (size : Nat) (glyphs : List Glyph) (text : List Char) : Hit :=
  ⟨if guarded then unmark (glyphs.take size) else text, size - 1⟩

/-- The assignment `target = target op value` up to its value. -/
def assign (target op : List Char) : List Char := target ++ [' ', '=', ' '] ++ target ++ [' '] ++ op

/-! ### Compound assignment -/

/-- The characters of an assignment's target. -/
def isTargetChar (c : Char) : Bool :=
  Text.isWord c || c == '.' || c == '[' || c == ']' || c == '"' || c == '\''

/-- The length of the blanks at the start. -/
def blanks (glyphs : List Glyph) : Nat := (glyphs.takeWhile (Text.isTabOrBlank ·.char)).length

/-- A compound assignment operator: its text, whether it is guarded, and its length with the blanks on
either side. -/
structure CompoundOperator where
  text : List Char
  guarded : Bool
  size : Nat

/-- The compound assignment operator that stands at the start, behind blanks at most. -/
def compoundOperator? (glyphs : List Glyph) : Option CompoundOperator :=
  let indent := blanks glyphs
  match glyphs.drop indent with
  | ⟨'+', guarded⟩ :: ⟨'=', _⟩ :: rest => some ⟨['+'], guarded, indent + 2 + blanks rest⟩
  | ⟨'-', guarded⟩ :: ⟨'=', _⟩ :: rest => some ⟨['-'], guarded, indent + 2 + blanks rest⟩
  | ⟨'.', guarded⟩ :: ⟨'.', _⟩ :: ⟨'=', _⟩ :: rest =>
    some ⟨['.', '.'], guarded, indent + 3 + blanks rest⟩
  | _ => none

/-- The shortest target with a compound assignment operator behind it; `target` has its characters so
far, the last one first. -/
def compoundFrom (target : List Char) : List Glyph → Option (List Char × CompoundOperator)
  | [] => none
  | g :: rest =>
    if isTargetChar g.char then
      match compoundOperator? rest with
      | some op => some ((g.char :: target).reverse, op)
      | none => compoundFrom (g.char :: target) rest
    else none

/-- A compound assignment up to its value. -/
def compoundHit? (_before : Option Char) (glyphs : List Glyph) : Option Hit :=
  (compoundFrom [] glyphs).map fun (target, op) =>
    .guardedBy op.guarded (target.length + op.size) glyphs (assign target op.text ++ [' '])

/-! ### Increments -/

/-- The characters of an updated target. -/
def isPathChar (c : Char) : Bool := Text.isWord c || c == '.' || c == '[' || c == ']'

/-- An increment, with the blank behind it if there is one. -/
def incrementHit? (_before : Option Char) (glyphs : List Glyph) : Option Hit :=
  let target := unmark (glyphs.takeWhile (isPathChar ·.char))
  if target.isEmpty then none
  else
    match glyphs.drop target.length with
    | ⟨'+', guarded⟩ :: ⟨'+', _⟩ :: rest =>
      let blank := if rest.head?.any (·.char == ' ') then 1 else 0
      some (.guardedBy guarded (target.length + 2 + blank) glyphs (assign target ['+', ' ', '1']))
    | _ => none

/-- A decrement with the blank behind it, which tells it from a comment. -/
def decrementHit? (_before : Option Char) (glyphs : List Glyph) : Option Hit :=
  let target := unmark (glyphs.takeWhile (isPathChar ·.char))
  if target.isEmpty then none
  else
    match glyphs.drop target.length with
    | ⟨'-', guarded⟩ :: ⟨'-', _⟩ :: ⟨' ', _⟩ :: _ =>
      some (.guardedBy guarded (target.length + 3) glyphs (assign target ['-', ' ', '1']))
    | _ => none

/-! ### Literal indices -/

/-- A decimal index right behind a word or a closing bracket, counted from one instead of zero. -/
def indexHit? (before : Option Char) (glyphs : List Glyph) : Option Hit :=
  match glyphs with
  | ⟨'[', guarded⟩ :: rest =>
    let digits := unmark (rest.takeWhile (Text.isDecimal ·.char))
    if before.any endsTarget && !digits.isEmpty
        && (rest.drop digits.length).head?.any (·.char == ']') then
      some (.guardedBy guarded (digits.length + 2) glyphs
        ('[' :: Nat.toDigits 10 (Text.decimalValue digits + 1) ++ [']']))
    else none
  | _ => none

/-! ### White space -/

/-- Drop the blanks before each line feed. -/
def dropTrailingBlanks (code : List Char) : List Char :=
  code.foldr (fun c rest => if Text.isTabOrBlank c && rest.head? == some '\n' then rest else c :: rest) []

/-- Keep two line feeds of a longer run. -/
def collapseEmptyLines (code : List Char) : List Char :=
  code.foldr (fun c rest => if c == '\n' && ['\n', '\n'].isPrefixOf rest then rest else c :: rest) []

/-- No blanks before a line feed, one empty line at most in a row, no white space at the ends. -/
def tidyWhitespace (code : List Char) : List Char :=
  Text.trim (collapseEmptyLines (dropTrailingBlanks code))

end Polish

/-! ### The passes -/

/-- The passes over finished code. -/
inductive Pass where
  | compound
  | increments
  | indices
  | whitespace
deriving DecidableEq

namespace Pass

/-- The effect of a pass on the characters of a code text. -/
def runOn : Pass → List Char → List Char
  | .compound, code => Polish.replaceIn Polish.compoundHit? code
  | .increments, code =>
    Polish.replaceIn Polish.decrementHit? (Polish.replaceIn Polish.incrementHit? code)
  | .indices, code => Polish.replaceIn Polish.indexHit? code
  | .whitespace, code => Polish.tidyWhitespace code

/-- The effect of a pass on a code text. -/
def run (p : Pass) (code : String) : String := String.ofList (p.runOn code.toList)

/-- The passes that every chunk goes through, in order. -/
def all : List Pass := [.compound, .increments, .indices, .whitespace]

/-- The name of a pass in the debug log. -/
def logName : Pass → String
  | .compound => "desugar_compound_assignment"
  | .increments => "desugar_increments"
  | .indices => "shift_literal_indices"
  | .whitespace => "normalize_whitespace"

/-- Run passes one after the other. -/
def runAll (passes : List Pass) (code : String) : String := passes.foldl (fun text p => p.run text) code

/-- The text after each pass. -/
def trace (passes : List Pass) (code : String) : List String :=
  match passes with
  | [] => []
  | p :: rest => p.run code :: trace rest (p.run code)

end Pass

/-- Run all passes over a finished chunk. -/
def polish (code : String) : String := Pass.runAll Pass.all code

end NoteScript
