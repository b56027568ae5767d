/-!
# Methods with a Lua form of their own

The methods that are not written as a plain call, and the names they go by. `chain` stands for the
methods of query collections that keep their name and are called with a colon.
-/

namespace NoteScript

/-- A kind of method call with a Lua form of its own. -/
inductive Method where
  | push
  | has
  | get
  | set
  | delete
  | keys
  | trim
  | replace
  | replaceAll
  | split
  | join
  | includes
  | startsWith
  | endsWith
  | toLowerCase
  | toUpperCase
  | toString
  | sort
  | filter
  | chain
deriving DecidableEq

namespace Method

/-- The methods of query collections. -/
def chained : List String :=
  ["map", "forEach", "flatMap", "groupBy", "where", "limit", "slice", "first", "last", "count",
   "values", "array", "plus", "minus"]

/-- The name of a method in a script; `chain` has none of its own. -/
def name? : Method → Option String
  | .push => some "push"
  | .has => some "has"
  | .get => some "get"
  | .set => some "set"
  | .delete => some "delete"
  | .keys => some "keys"
  | .trim => some "trim"
  | .replace => some "replace"
  | .replaceAll => some "replaceAll"
  | .split => some "split"
  | .join => some "join"
  | .includes => some "includes"
  | .startsWith => some "startsWith"
  | .endsWith => some "endsWith"
  | .toLowerCase => some "toLowerCase"
  | .toUpperCase => some "toUpperCase"
  | .toString => some "toString"
  | .sort => some "sort"
  | .filter => some "filter"
  | .chain => none

/-- All methods. -/
def all : List Method :=
  [.push, .has, .get, .set, .delete, .keys, .trim, .replace, .replaceAll, .split, .join, .includes,
   .startsWith, .endsWith, .toLowerCase, .toUpperCase, .toString, .sort, .filter, .chain]

/-- The method that a name stands for; `none` for a plain call. -/
def ofName? (name : String) : Option Method :=
  if chained.contains name then some .chain else all.find? (·.name? == some name)

end Method

end NoteScript
