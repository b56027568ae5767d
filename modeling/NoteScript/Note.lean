import NoteScript.Text.Space
import NoteScript.Token.Extent

/-!
# Queries in a note

A note holds queries in two forms: a fenced block whose opening fence carries the word `dataviewjs`, in
any case, and an inline expression that starts with `$=` between single backticks. A fenced block of
another language is passed over whole; a fence that is never closed is no fence, and its line is not
searched for inline expressions.
-/

namespace NoteScript

/-- The two forms of a query. -/
inductive QueryKind where
  | block
  | inline
deriving DecidableEq

/-- A query, and the line of its opening fence or of the expression, counted from one. -/
structure QueryBlock where
  kind : QueryKind
  source : String
  line : Nat
deriving DecidableEq

namespace Note

/-- The mark of a fence. -/
def fence : List Char := [Token.backtick, Token.backtick, Token.backtick]

/-- What follows the mark of a fence on its line, if the line is one. -/
def afterFence? (line : String) : Option (List Char) :=
  let cs := Text.trimStart line.toList
  if fence.isPrefixOf cs then some (cs.drop fence.length) else none

/-- The word right behind an opening fence. -/
def fenceWord? (line : String) : Option (List Char) := do
  let word := (← afterFence? line).takeWhile (!Text.isSpace ·)
  if word.isEmpty then none else some word

/-- A line that closes a block. -/
def closesFence (line : String) : Bool := (afterFence? line).any (·.all Text.isSpace)

/-- Does the word behind a fence open a query? The letters count in either case. -/
def isQueryWord (word : List Char) : Bool := word.map Char.toLower == "dataviewjs".toList

/-- An inline expression at the start of a line, and how many characters it takes after its first. -/
def inlineAt? (cs : List Char) : Option (List Char × Nat) :=
  if [Token.backtick, '$', '='].isPrefixOf cs then
    let rest := cs.drop 3
    let source := rest.takeWhile (· != Token.backtick)
    if source.length < rest.length then some (source, source.length + 3) else none
  else none

/-- The inline expressions of a line, where `skip` characters belong to one already found. -/
def inlineFrom (skip : Nat) : List Char → List String
  | [] => []
  | c :: rest =>
    match skip with
    | k + 1 => inlineFrom k rest
    | 0 =>
      match inlineAt? (c :: rest) with
      | some (source, taken) => String.ofList source :: inlineFrom taken rest
      | none => inlineFrom 0 rest

/-- The inline expressions of a line. -/
def inlineQueries (number : Nat) (line : String) : List QueryBlock :=
  (inlineFrom 0 line.toList).map fun source => ⟨.inline, source, number⟩

/-- The queries from a line on, given its number, where `skip` lines belong to a block already
found. -/
def queriesFrom (number : Nat) (skip : Nat) : List String → List QueryBlock
  | [] => []
  | line :: rest =>
    match skip with
    | k + 1 => queriesFrom (number + 1) k rest
    | 0 =>
      match fenceWord? line with
      | none => inlineQueries number line ++ queriesFrom (number + 1) 0 rest
      | some word =>
        let body := rest.takeWhile (!closesFence ·)
        if body.length < rest.length then
          let block : QueryBlock := ⟨.block, String.intercalate "\n" body, number⟩
          (if isQueryWord word then [block] else []) ++ queriesFrom (number + 1) (body.length + 1) rest
        else queriesFrom (number + 1) 0 rest

/-- The queries of a note in their order. -/
def queries (markdown : String) : List QueryBlock := queriesFrom 1 0 (Text.lines markdown)

end Note

end NoteScript
