import NoteScript.Token.Extent

/-!
# Cutting a script into tokens

`scan` cuts a text into tokens from left to right. Each step takes at least one character, so it
ends, and the texts of the tokens in a row are the source again. `tokenize` adds the closing token.
-/

namespace NoteScript.Token

/-- The tokens of the characters, where `divides` says whether a slash divides at their start. -/
def scanFrom (divides : Bool) : List Char → List Token
  | [] => []
  | c :: rest =>
    let (kind, size) := first divides c rest
    let token : Token := ⟨kind, String.ofList (c :: rest.take (size - 1))⟩
    token :: scanFrom (if token.isTrivia then divides else token.endsOperand) (rest.drop (size - 1))
termination_by cs => cs.length
decreasing_by
  simp only [List.length_cons, List.length_drop]
  omega

/-- The tokens of a script, without a closing token. -/
def scan (source : String) : List Token := scanFrom false source.toList

/-- The tokens of a script and the token that closes them. -/
def tokenize (source : String) : List Token := scan source ++ [eof]

end NoteScript.Token
