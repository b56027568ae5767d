import NoteScript.Text.Edit
import NoteScript.Text.Space

/-!
# Fixed forms in Lua

Some expressions have no counterpart in Lua and are written as a function that is called on the spot.
The forms below write them, and `keysArgument?` and `Comparator.ofText?` read two of them back.
-/

namespace NoteScript.Idiom

/-- The table of the keys of a table, sorted or not. -/
def keys (expression : String) (sorted : Bool) : String :=
  "(function() local _k = \x7b\x7d; for k in pairs(" ++ expression ++ ") do _k[#_k+1] = k end;"
    ++ (if sorted then " table.sort(_k);" else "") ++ " return _k end)()"

/-- The table of the values of a table. -/
def values (expression : String) : String :=
  "(function() local _v = \x7b\x7d; for _, v in pairs(" ++ expression
    ++ ") do _v[#_v+1] = v end; return _v end)()"

/-- The table of the pairs of a table. -/
def entries (expression : String) : String :=
  "(function() local _e = \x7b\x7d; for k, v in pairs(" ++ expression
    ++ ") do _e[#_e+1] = \x7bk, v\x7d end; return _e end)()"

/-- The number of pairs of a table. -/
def size (expression : String) : String :=
  "(function() local _n = 0; for _ in pairs(" ++ expression ++ ") do _n = _n + 1 end; return _n end)()"

/-- The text between a beginning and an ending that do not overlap. -/
def between? (start finish text : List Char) : Option (List Char) :=
  if start.isPrefixOf text && finish.isSuffixOf (text.drop start.length) then
    some ((text.drop start.length).take (text.length - start.length - finish.length))
  else none

/-- The table of an unsorted key table. -/
def keysArgument? (text : String) : Option String :=
  (between? "(function() local _k = \x7b\x7d; for k in pairs(".toList
    ") do _k[#_k+1] = k end; return _k end)()".toList text.toList).map String.ofList

/-! ### Comparators -/

/-- A comparison function that does nothing but return a number: its parameters and that number. -/
structure Comparator where
  params : String
  body : String

/-- Split what follows the word `return` into a body and a closing `end`. The white space in front goes
away as far as a body is left, and one character of the white space behind the body. -/
def returnedBody? (cs : List Char) : Option (List Char) :=
  let lead := min (cs.takeWhile Text.isSpace).length (cs.length - 5)
  let body := (cs.drop lead).take (cs.length - 4 - lead)
  match cs.reverse with
  | 'd' :: 'n' :: 'e' :: c :: _ => if 0 < lead && Text.isSpace c && !body.isEmpty then some body else none
  | _ => none

/-- Read a comparison function that does nothing but return a number. -/
def Comparator.ofText? (text : String) : Option Comparator :=
  let head := "function(".toList
  let word := "return".toList
  if head.isPrefixOf text.toList then
    let inside := text.toList.drop head.length
    let params := inside.takeWhile (· != ')')
    match inside.drop params.length with
    | _ :: behind =>
      let afterSpace := behind.dropWhile Text.isSpace
      if behind.head?.any Text.isSpace && word.isPrefixOf afterSpace then
        (returnedBody? (afterSpace.drop word.length)).map fun body =>
          ⟨String.ofList params, String.ofList body⟩
      else none
    | [] => none
  else none

end NoteScript.Idiom
