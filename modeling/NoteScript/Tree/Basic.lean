import NoteScript.Text.Quoted

/-!
# Parsed scripts

The tree of a parsed script, as a JavaScript parser hands it over: nodes with named fields in order,
lists, and plain values. A parser may put an error object into such a tree. Nothing is assumed of the
value of a field: a place or a description is passed on as the parser gave it.
-/

namespace NoteScript

/-- A parsed script, or a part of one. A value that is missing is `null`. -/
inductive Tree where
  | null
  | bool (value : Bool)
  | int (value : Int)
  | text (value : String)
  | list (items : List Tree)
  | node (fields : List (String × Tree))
  /-- An error object of the parser. -/
  | fault (message : String) (description line column : Tree)

/-- An error object of the parser. -/
structure SyntaxFault where
  message : String
  description : Tree
  line : Tree
  column : Tree

/-- A place in a script. -/
structure Position where
  line : Tree
  column : Tree

namespace Tree

/-- The value of a field. -/
def field? (key : String) : Tree → Option Tree
  | .node fields => (fields.find? (·.1 == key)).map (·.2)
  | _ => none

/-- The value of a field, `null` if there is none. -/
def child (key : String) (t : Tree) : Tree := (t.field? key).getD .null

/-- The text of a field, if it is one. -/
def textField? (key : String) (t : Tree) : Option String :=
  match t.field? key with
  | some (.text value) => some value
  | _ => none

/-- Is it a node? -/
def isNode : Tree → Bool
  | .node _ => true
  | _ => false

/-- Is there anything in it? Missing, false, zero and empty values hold nothing. -/
def holds : Tree → Bool
  | .null => false
  | .bool value => value
  | .int value => value != 0
  | .text value => !value.isEmpty
  | .list items => !items.isEmpty
  | .node fields => !fields.isEmpty
  | .fault .. => true

mutual

/-- A value inside another value, in a message. -/
def showInside : Tree → String
  | .null => "None"
  | .bool value => if value then "True" else "False"
  | .int value => toString value
  | .text value => Text.quoted value
  | .list items => "[" ++ showItems items ++ "]"
  | .node fields => "\x7b" ++ showFields fields ++ "\x7d"
  | .fault message .. => message

/-- The items of a list, in a message. -/
def showItems : List Tree → String
  | [] => ""
  | [item] => showInside item
  | item :: rest => showInside item ++ ", " ++ showItems rest

/-- The fields of a node, in a message. -/
def showFields : List (String × Tree) → String
  | [] => ""
  | [(key, value)] => Text.quoted key ++ ": " ++ showInside value
  | (key, value) :: rest => Text.quoted key ++ ": " ++ showInside value ++ ", " ++ showFields rest

end

/-- A value in a message: a text stands as it is. -/
def display : Tree → String
  | .text value => value
  | t => t.showInside

/-- Where a node starts. -/
def position (t : Tree) : Position :=
  let start := (t.child "loc").child "start"
  ⟨start.child "line", start.child "column"⟩

end Tree

end NoteScript
