import NoteScript.Token.Basic

/-!
# Groups of tokens

`splitOn` cuts a token list at a punctuation mark wherever no bracket is open, `splitFirst` at the
first comma of such places only.
-/

namespace NoteScript.Token

/-- Cut at the separator outside brackets, where `depth` brackets are open and `group` holds the
tokens of the current group, the last one first. -/
def splitFrom (separator : String) (depth : Int) (group : List Token) : List Token → List (List Token)
  | [] => [group.reverse]
  | t :: rest =>
    let depth' := if t.isOpener then depth + 1 else if t.isCloser then depth - 1 else depth
    if depth' == 0 && t.isPunct [separator] then group.reverse :: splitFrom separator depth' [] rest
    else splitFrom separator depth' (t :: group) rest

/-- The groups between the separators which stand outside brackets. -/
def splitOn (separator : String) (tokens : List Token) : List (List Token) :=
  splitFrom separator 0 [] tokens

/-- The comma that joins groups. -/
def comma : Token := ⟨.punctuation, ","⟩

/-- The first argument of a call, and the others with the commas between them. -/
def splitFirst (tokens : List Token) : List Token × List Token :=
  match splitOn "," tokens with
  | [] => ([], [])
  | head :: others => (head, [comma].intercalate others)

end NoteScript.Token
