import NoteScript.Tree.Support

/-!
# Checking a script before it is converted

A JavaScript parser is asked for the tree of a script. What it hands back is a `ParseOutcome`: a tree,
which may list errors that the parser has recovered from, or an error that stopped it. A tolerant check
reports either kind; a strict one is stopped by the parser's error. The tree is then searched for
constructs without full support.
-/

namespace NoteScript

/-- What a JavaScript parser makes of a script. -/
inductive ParseOutcome where
  | tree (t : Tree)
  | stopped (error : SyntaxFault)

/-- A syntax error in a report. -/
structure ParseError where
  description : Tree
  line : Tree
  column : Tree

namespace ParseError

/-- The text of a syntax error, with its place if that is known. -/
def text (e : ParseError) : String :=
  match e.line with
  | .null => e.description.display
  | line => e.description.display ++ " (line " ++ line.display ++ ", column " ++ e.column.display ++ ")"

/-- A description, unless there is nothing in it. -/
def describe (description : Tree) (otherwise : String) : Tree :=
  if description.holds then description else .text otherwise

/-- The report of an error object. -/
def ofFault (f : SyntaxFault) : ParseError := ⟨describe f.description f.message, f.line, f.column⟩

/-- The report of an error listed in a tree. -/
def ofTree : Tree → ParseError
  | .fault message description line column => ofFault ⟨message, description, line, column⟩
  | .node fields =>
    let t := Tree.node fields
    ⟨describe (t.child "description") "syntax error", t.child "lineNumber", t.child "column"⟩
  | t => ⟨.text t.display, .null, .null⟩

end ParseError

namespace Tree

/-- The errors listed in a tree. -/
def listedErrors (t : Tree) : List ParseError :=
  match t.field? "errors" with
  | some (.list items) => items.map ParseError.ofTree
  | some (.text value) => value.toList.map fun c => .ofTree (.text (String.ofList [c]))
  | some (.node fields) => fields.map fun f => .ofTree (.text f.1)
  | _ => []

/-- The tree, unless it is missing. -/
def present? : Tree → Option Tree
  | .null => none
  | t => some t

end Tree

/-- What a check found: the tree, if there is one, the syntax errors, and the issues of the tree unless
they were not asked for. -/
structure Checked where
  tree : Option Tree
  errors : List ParseError
  issues : Option (List SupportIssue)

namespace Checked

/-- Check a script. A strict check is stopped by an error that stopped the parser. -/
def ofOutcome (outcome : ParseOutcome) (tolerant analyze : Bool) : Except SyntaxFault Checked :=
  match outcome with
  | .stopped error => if tolerant then .ok ⟨none, [.ofFault error], none⟩ else .error error
  | .tree t =>
    .ok ⟨t.present?, t.listedErrors, if analyze then t.present?.map Tree.issues else none⟩

/-- Is there a tree and no syntax error? -/
def parsedCleanly (c : Checked) : Bool := c.tree.isSome && c.errors.isEmpty

/-- Syntax errors, then issues. -/
def diagnostics (c : Checked) : List String :=
  c.errors.map ParseError.text ++ (c.issues.getD []).map SupportIssue.text

end Checked

end NoteScript
