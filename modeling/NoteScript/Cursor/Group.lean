import NoteScript.Fault

/-!
# Groups at the cursor

A group is what stands between a bracket and its partner, brackets of the same shape inside counted.
-/

namespace NoteScript

namespace Cursor

/-- The tokens of a group up to its closing bracket, where `depth` further groups of the same brackets
are open. -/
def groupFrom (opener closer : String) (depth : Nat) : List Token → Option (List Token)
  | [] => none
  | t :: rest =>
    if t.isEof then none
    else if t.isPunct [opener] then (groupFrom opener closer (depth + 1) rest).map (t :: ·)
    else if t.isPunct [closer] then
      match depth with
      | 0 => some []
      | k + 1 => (groupFrom opener closer k rest).map (t :: ·)
    else (groupFrom opener closer depth rest).map (t :: ·)

/-- The tokens inside the group that starts at the cursor, and the cursor behind it. A group that is
never closed leaves the cursor at the end. -/
def group (c : Cursor) (opener closer : String) : Except Fault (List Token) × Cursor :=
  if c.atPunct [opener] then
    match groupFrom opener closer 0 c.advance.rest with
    | some inside => (.ok inside, c.advanceBy (inside.length + 2))
    | none => (.error (.unterminated opener c), c.advanceBy (c.run (!·.isEof)).length)
  else (.error (.expected opener c), c)

end Cursor

end NoteScript
