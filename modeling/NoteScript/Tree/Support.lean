import NoteScript.Pattern
import NoteScript.Tree.Basic

/-!
# Constructs without full support

The rules work on tokens and notice a construct without a counterpart only when they meet it.
`Tree.issues` finds the same constructs on a parsed tree, in the order of its fields, with their place:
loops that count, regular expressions with alternation, patterns, `switch`, `try` and `class`, a
`continue` that no supported loop of its function encloses, and `eval`. The search counts the loops it is
in, with a count of its own for each function it is in.
-/

namespace NoteScript

/-- What is not fully supported. -/
inductive Unsupported where
  | countingLoop
  | regex (literal : String)
  | destructuring
  | statement (keyword : String)
  | continueOutsideLoop
  | eval
deriving DecidableEq

/-- Something that is not fully supported, and its place. -/
structure SupportIssue where
  what : Unsupported
  position : Position

namespace SupportIssue

/-- The code of an issue. -/
def code (i : SupportIssue) : String :=
  match i.what with
  | .countingLoop => "C_STYLE_FOR"
  | .regex _ => "REGEX_ALTERNATION"
  | .destructuring => "DESTRUCTURING_PATTERN"
  | .statement _ => "UNSUPPORTED_STATEMENT"
  | .continueOutsideLoop => "CONTINUE_OUTSIDE_LOOP"
  | .eval => "EVAL_CALL"

/-- The message of an issue. -/
def message (i : SupportIssue) : String :=
  match i.what with
  | .countingLoop => "C-style for loops are not transpiled; the loop body is skipped."
  | .regex literal => literal ++ " uses alternation, which Lua patterns cannot express."
  | .destructuring => "Destructuring patterns are not transpiled."
  | .statement keyword => "`" ++ keyword ++ "` is not transpiled; it is skipped."
  | .continueOutsideLoop => "`continue` has no enclosing for-of, for-in, while or do-while loop."
  | .eval => "eval cannot be transpiled."

/-- The text of an issue: code, message and place. -/
def text (i : SupportIssue) : String :=
  i.code ++ ": " ++ i.message ++ " (line " ++ i.position.line.display ++ ", column "
    ++ i.position.column.display ++ ")"

end SupportIssue

namespace Tree

/-- What a node means to the search for issues. -/
inductive Role where
  /-- A loop in which `continue` is supported. -/
  | loop
  /-- A function, in which loops outside do not count. -/
  | function
  /-- A construct that is reported and not searched. -/
  | reported (what : Unsupported)
  | continue
  | literal
  | call
  | plain
deriving DecidableEq

/-- The types of the loops in which `continue` is supported. -/
def loopTypes : List String := ["ForOfStatement", "ForInStatement", "WhileStatement", "DoWhileStatement"]

/-- The types of the functions. -/
def functionTypes : List String := ["FunctionDeclaration", "FunctionExpression", "ArrowFunctionExpression"]

/-- The types of the statements without a counterpart, and their keywords. -/
def skippedTypes : List (String × String) :=
  [("SwitchStatement", "switch"), ("TryStatement", "try"), ("ClassDeclaration", "class"),
   ("ClassExpression", "class")]

/-- The role that goes with a type by its name; the two groups of the tables above have a name too. -/
def namedRole? : String → Option Role
  | "loop" => some .loop
  | "function" => some .function
  | "ForStatement" => some (.reported .countingLoop)
  | "ContinueStatement" => some .continue
  | "Literal" => some .literal
  | "ObjectPattern" | "ArrayPattern" => some (.reported .destructuring)
  | "CallExpression" => some .call
  | _ => none

/-- The role of a node by its type: the tables come first, then the names. -/
def roleOf (type : String) : Role :=
  if loopTypes.contains type then .loop
  else if functionTypes.contains type then .function
  else
    match skippedTypes.lookup type with
    | some keyword => .reported (.statement keyword)
    | none => (namedRole? type).getD .plain

/-- The role of a node. -/
def role (t : Tree) : Role := ((t.textField? "type").map roleOf).getD .plain

/-- The literal of a regular expression that has no Lua pattern. -/
def rejectedRegex? (t : Tree) : Option String :=
  match t.field? "regex" with
  | some (.node fields) =>
    let part (key : String) : String := (((Tree.node fields).field? key).map Tree.display).getD ""
    let literal := "/" ++ part "pattern" ++ "/" ++ part "flags"
    if (Pattern.ofRegex literal).lua.isNone then some literal else none
  | _ => none

/-- The name `eval`. -/
def isEval (t : Tree) : Bool := t.textField? "type" == some "Identifier" && t.textField? "name" == some "eval"

/-- The fields that are not searched. -/
def isAside (key : String) : Bool := ["loc", "range", "comments", "errors"].contains key

end Tree

/-! ### The search -/

/-- A search under way: the issues found so far, and for each function around the current place, the
innermost first, the number of its loops around the place. -/
structure Survey where
  issues : List SupportIssue := []
  depths : List Nat := [0]

namespace Survey

/-- Report a construct at a node. -/
def report (s : Survey) (what : Unsupported) (t : Tree) : Survey :=
  { s with issues := s.issues ++ [⟨what, t.position⟩] }

/-- Go into a loop. -/
def enterLoop (s : Survey) : Survey := { s with depths := s.depths.modifyHead (· + 1) }

/-- Come out of a loop. -/
def leaveLoop (s : Survey) : Survey := { s with depths := s.depths.modifyHead (· - 1) }

/-- Go into a function. -/
def enterFunction (s : Survey) : Survey := { s with depths := 0 :: s.depths }

/-- Come out of a function. -/
def leaveFunction (s : Survey) : Survey := { s with depths := s.depths.tail }

/-- Visit a `continue`: it needs a loop of the innermost function. -/
def visitContinue (s : Survey) (t : Tree) : Survey :=
  if s.depths.head? == some 0 then s.report .continueOutsideLoop t else s

/-- Visit a literal. -/
def visitLiteral (s : Survey) (t : Tree) : Survey :=
  match t.rejectedRegex? with
  | some literal => s.report (.regex literal) t
  | none => s

/-- Visit the called function of a call; the issue has the place of its name. -/
def visitCallee (s : Survey) (t : Tree) : Survey :=
  match t.field? "callee" with
  | some callee => if callee.isEval then s.report .eval callee else s
  | none => s

mutual

/-- Visit a tree. -/
def visit (s : Survey) : Tree → Survey
  | .list items => visitList s items
  | .node fields =>
    let t := Tree.node fields
    match t.role with
    | .loop => (visitFields s.enterLoop fields).leaveLoop
    | .function => (visitFields s.enterFunction fields).leaveFunction
    | .reported what => s.report what t
    | .continue => s.visitContinue t
    | .literal => s.visitLiteral t
    | .call => visitFields (s.visitCallee t) fields
    | .plain => visitFields s fields
  | _ => s

/-- Visit the items of a list. -/
def visitList (s : Survey) : List Tree → Survey
  | [] => s
  | item :: rest => visitList (visit s item) rest

/-- Visit the fields of a node. -/
def visitFields (s : Survey) : List (String × Tree) → Survey
  | [] => s
  | (key, value) :: rest => visitFields (if Tree.isAside key then s else visit s value) rest

end

/-- Search a parsed script. -/
def ofTree (t : Tree) : Survey := visit {} t

end Survey

/-- The issues of a parsed script. -/
def Tree.issues (t : Tree) : List SupportIssue := (Survey.ofTree t).issues

end NoteScript
