import NoteScript.Rules.Skip

/-!
# Control flow

Branches, loops and jumps. A jump to the end of a loop's body becomes a jump to a label, which stands
behind a scope of its own around the body.
-/

namespace NoteScript.Rules

open Edit

/-- Take a condition in round brackets. -/
def condition (r : Rules) : Edit String := do
  skipTrivia
  r.value (← arguments)

/-- Take the body of a branch or a loop: a block or a statement. -/
def body (r : Rules) : Edit Unit := do
  skipTrivia
  let start ← mark
  if (← cursor).atPunct ["\x7b"] then r.block else r.statement
  rework (·.separateAt start)

/-- Write a keyword of the construct that started at a mark. -/
def clause (start : Nat) (keyword : String) : Edit Unit := rework (·.emitClause start keyword)

/-! ### Branches -/

/-- Take `limit` further branches at most of the `if` statement that started at a mark. -/
def elseBranches (r : Rules) (start : Nat) : Nat → Edit Unit
  | 0 => pure ()
  | limit + 1 => do
    let (following, offset) := (← cursor).ahead 0
    if following.isWord "else" then
      skip (offset + 1)
      skipTrivia
      if (← cursor).atWord "if" then
        skip 1
        let test ← r.condition
        clause start ("elseif " ++ test ++ " then")
        r.body
        r.elseBranches start limit
      else
        clause start "else"
        r.body

/-- Take an `if` statement. -/
def ifStatement (r : Rules) : Edit Unit := do
  let start ← mark
  skip 1
  let test ← r.condition
  emit ("if " ++ test ++ " then")
  r.body
  r.elseBranches start (← cursor).rest.length
  clause start "end"

/-! ### Loops -/

/-- Write the label of a loop behind the body that started at a mark. -/
def placeLabel (start : Nat) (indent label : String) : Edit Unit := do
  rework (·.labelBody start indent label)
  record (.labelled label)

/-- Take the body of a loop behind its head; hand out its label. -/
def loop (r : Rules) (head : String) : Edit String := do
  let label ← nextLabel
  let out ← written
  emit head
  let start ← mark
  match ← enclosedBy (.loop label false) r.body with
  | .loop _ true => placeLabel start (out.indentAt out.length) label
  | _ => pure ()
  return label

/-- Write the keyword that closes the loop which started at a mark. -/
def closeLoop (start : Nat) (label keyword : String) : Edit Unit := do
  clause start keyword
  record (.closed label)

/-- The head of a loop over a collection. -/
structure ForEach where
  item : String
  /-- Does the loop go over the values and not over the keys? -/
  overValues : Bool
  collection : List Token

/-- The words that declare a variable. -/
def declarationWords : List String := ["const", "let", "var"]

/-- A list of tokens from its first token on that is no trivia. -/
def dropTrivia (tokens : List Token) : List Token := tokens.dropWhile Token.isTrivia

/-- A loop head without its declaration word. -/
def dropDeclarationWord (tokens : List Token) : List Token :=
  match dropTrivia tokens with
  | t :: rest => if declarationWords.contains t.text then dropTrivia rest else t :: rest
  | [] => []

/-- Read the head of a loop over a collection: a name, `of` or `in`, and something to go over. -/
def forEach? (head : List Token) : Option ForEach :=
  match dropDeclarationWord head with
  | name :: rest =>
    match dropTrivia rest with
    | word :: collection =>
      if name.isIdentifier && (word.isWord "of" || word.isWord "in") && Token.hasContent collection then
        some ⟨name.text, word.text == "of", collection⟩
      else none
    | [] => none
  | [] => none

/-- The head of a loop over a collection in Lua, given the text of the collection. -/
def ForEach.text (each : ForEach) (collection : String) : String :=
  if each.overValues then "for _, " ++ each.item ++ " in ipairs(" ++ collection ++ ") do"
  else "for " ++ each.item ++ " in pairs(" ++ collection ++ ") do"

/-- Take a `for` statement. Only loops over a collection have a counterpart. -/
def forStatement (r : Rules) : Edit Unit := do
  let start ← mark
  skip 1
  skipTrivia
  let head ← arguments
  match forEach? head with
  | some each =>
    let collection ← r.value each.collection
    let label ← r.loop (each.text collection)
    closeLoop start label "end"
  | none =>
    let what := if head.any (·.isPunct [";"]) then "C-style for loop" else "for loop header"
    unsupported (what ++ " (body skipped)")
    skipBody

/-- Take a `while` statement. -/
def whileStatement (r : Rules) : Edit Unit := do
  let start ← mark
  skip 1
  let test ← r.condition
  let label ← r.loop ("while " ++ test ++ " do")
  closeLoop start label "end"

/-- Take a `do` statement with the condition behind its body. -/
def doStatement (r : Rules) : Edit Unit := do
  let start ← mark
  skip 1
  let label ← r.loop "repeat"
  let here ← cursor
  let (following, offset) := here.ahead 0
  if following.isWord "while" then
    skip (offset + 1)
    let test ← r.condition
    closeLoop start label ("until not (" ++ test ++ ")")
    skipSpace
    skipPunct ";"
  else throw (.missingWhile here)

/-! ### Jumps -/

/-- Take a `return` statement. -/
def returnStatement (r : Rules) : Edit Unit := do
  skip 1
  emit "return"
  skipSpace
  let here ← cursor
  if here.atPunct [";"] then skip 1
  else if here.atEnd || here.atPunct ["\x7d"] || here.current.isNewline || here.current.kind == .comment then
    pure ()
  else
    emit " "
    r.expressionStatement false

/-- Take a `break` statement. -/
def breakStatement : Edit Unit := do
  skip 1
  emit "break"
  skipSpace
  skipPunct ";"

/-- Take a `continue` statement: a jump to the label of the innermost loop of this function. -/
def continueStatement : Edit Unit := do
  skip 1
  match (← get).enclosures with
  | .loop label _ :: _ =>
    modify fun d => { d with toLedger := d.toLedger.markContinued }
    emit ("goto " ++ label)
    record (.jumped label)
  | _ =>
    unsupported "continue outside a loop"
    record .refused
  skipSpace
  skipPunct ";"

/-- Take a `throw` statement. -/
def throwStatement (r : Rules) : Edit Unit := do
  skip 1
  skipSpace
  let captured ← capture (r.expressionStatement false)
  emit ("error(" ++ Text.strip captured.text ++ ")")

end NoteScript.Rules
