/-!
# Parts of a text

Searching and replacing over characters: a match is taken at the leftmost place, and matches do not
overlap.
-/

namespace NoteScript.Text

/-- Does `s` begin with `start`? -/
def beginsWith (start s : String) : Bool := start.toList.isPrefixOf s.toList

/-- Does `s` end with `ending`? -/
def endsWith (ending s : String) : Bool := ending.toList.isSuffixOf s.toList

/-- Does `part` occur in the characters? -/
def occursIn (part : List Char) : List Char → Bool
  | [] => part.isEmpty
  | c :: rest => part.isPrefixOf (c :: rest) || occursIn part rest

/-- Does `part` occur in `s`? -/
def contains (part s : String) : Bool := occursIn part.toList s.toList

/-- Replace each occurrence of `part`, where `skip` characters belong to one already replaced. -/
def replaceFrom (part new : List Char) (skip : Nat) : List Char → List Char
  | [] => []
  | c :: rest =>
    match skip with
    | k + 1 => replaceFrom part new k rest
    | 0 =>
      if part.isPrefixOf (c :: rest) then new ++ replaceFrom part new (part.length - 1) rest
      else c :: replaceFrom part new 0 rest

/-- Replace each occurrence of the non-empty `part` by `new`. -/
def replace (part new s : String) : String :=
  String.ofList (replaceFrom part.toList new.toList 0 s.toList)

/-- `n` copies of a text in a row. -/
def copies (n : Nat) (s : String) : String := String.join (List.replicate n s)

/-- A text without its first and its last character. -/
def inner (s : String) : String := String.ofList s.toList.tail.dropLast

end NoteScript.Text
