import NoteScript.Polish.Pass
import NoteScript.Rules.Nesting

/-!
# From a script to Lua code

`transpile` cuts a script into tokens, checks its brackets, converts it and polishes the text. It never
fails outright: what went wrong is part of its result, and so are the diagnostics.
-/

namespace NoteScript

/-- Why a script has no Lua code. -/
inductive TranspileFailure where
  /-- There is no script. -/
  | invalidInput
  /-- Its brackets do not pair. -/
  | brackets (fault : BracketFault)
  /-- The run of the rules was stopped. -/
  | rules (fault : Fault)
deriving DecidableEq

/-- The text of a failure. -/
def TranspileFailure.message : TranspileFailure → String
  | .invalidInput => "transpile: input must be a non-empty string"
  | .brackets fault => "Transpile error: " ++ fault.message
  | .rules fault => "Transpile error: " ++ fault.message

/-- What became of a script: its Lua code or a failure, and the diagnostics in order. -/
structure Transpiled where
  outcome : Except TranspileFailure String
  diagnostics : List String

namespace Transpiled

/-- The Lua code, if there is any. -/
def code? (t : Transpiled) : Option String := t.outcome.toOption

/-- The text of the failure, if there is one. -/
def error? (t : Transpiled) : Option String :=
  match t.outcome with
  | .ok _ => none
  | .error failure => some failure.message

end Transpiled

/-- The Lua code of a script. -/
def transpile (source : String) : Transpiled :=
  if source.isEmpty then ⟨.error .invalidInput, []⟩
  else
    let tokens := Token.tokenize source
    match Token.checkBrackets tokens with
    | .error fault => ⟨.error (.brackets fault), []⟩
    | .ok () =>
      let (result, ledger) := convertTokens tokens {}
      match result with
      | .ok code => ⟨.ok (polish code), ledger.diagnostics⟩
      | .error fault => ⟨.error (.rules fault), ledger.diagnostics⟩

/-- The Lua code of an input that may be no text at all. -/
def transpileInput (source : Option String) : Transpiled :=
  match source with
  | some text => transpile text
  | none => ⟨.error .invalidInput, []⟩

/-- The Lua chunk of an inline expression: it returns the value of the expression, which stands as it
is if it has no Lua code. -/
def transpileInline (expression : String) : String :=
  let body :=
    match (transpile expression).code? with
    | some code => if code.isEmpty then expression else code
    | none => expression
  "return " ++ Text.strip body

end NoteScript
